import Cuesheet.Clock.Frames
import Cuesheet.Clock.Mode

/-!
# Timelines

A timeline is a clock that moves from frame to frame by the time that passed between them. A live
one runs on; a bounded one with a duration stops there or starts over. Whoever subscribes is told
the time at every tick. A running timeline has requested its next frame.
-/

namespace Cuesheet

/-- Why a clock refuses what it is asked. -/
inductive ClockFault (T : Type) where
  | badMode (mode : String)
  | badFps (fps : Number)
  | badRefresh (hz : T)
  | backwards (timestamp now : T)
  | seekBelowZero (time : T)
  /-- Nothing delivers frames. -/
  | noFrames
  | arith (fault : ArithFault)
  deriving Repr

def ClockFault.message {T : Type} [TimeScalar T] : ClockFault T → String
  | badMode mode =>
    "clock_mode must be one of " ++ ClockMode.choices ++ ", got '" ++ mode ++ "'"
  | badFps fps => "fps must be > 0, got " ++ fps.text
  | badRefresh hz => "refresh_hz must be > 0, got " ++ TimeScalar.fullText hz
  | backwards timestamp now =>
    "Frame timestamps must not go backwards: " ++ TimeScalar.fullText timestamp ++ " < "
      ++ TimeScalar.fullText now
  | seekBelowZero time => "Seek time must be >= 0, got " ++ TimeScalar.fullText time
  | noFrames => "no running event loop"
  | arith fault => fault.message

/-- A clock with its subscribers. -/
structure Timeline (T S : Type) where
  id : String
  /-- Frames per second of what is shown, from which the frame number is computed. -/
  fps : Number
  mode : ClockMode
  loop : Bool
  duration : Option T
  subscribers : List S := []
  /-- The handle of the frame that is requested. -/
  handle : Option Nat := none
  /-- The time of the last frame since the clock was started. -/
  lastTimestamp : Option T := none
  running : Bool := false
  time : T
  frame : Int := 0
  deriving Repr

/-- What is asked of a clock that does not exist yet. -/
structure ClockSettings (T : Type) where
  fps : Number
  mode : String := ClockMode.live.text
  loop : Bool := false
  duration : Option T := none
  deriving Repr

namespace Timeline

variable {T S : Type} [TimeScalar T]

def create (id : String) (settings : ClockSettings T) : Except (ClockFault T) (Timeline T S) :=
  match ClockMode.ofString? settings.mode with
  | none => .error (.badMode settings.mode)
  | some mode =>
    if settings.fps.isNonpositive then .error (.badFps settings.fps)
    else
      .ok {
        id
        fps := settings.fps
        mode
        loop := settings.loop
        duration := settings.duration
        time := TimeScalar.zero }

/-- Where a clock is that reaches a time, and whether it runs on. -/
def land (tl : Timeline T S) (next : T) : T × Bool :=
  match tl.mode, tl.duration with
  | .bounded, some duration =>
    if TimeScalar.le duration next then
      if tl.loop then
        (if TimeScalar.lt TimeScalar.zero duration then TimeScalar.mod next duration
          else TimeScalar.zero, true)
      else (duration, false)
    else (next, true)
  | _, _ => (next, true)

/-- A running clock after a frame, its frame number not yet computed. The first frame after a
start moves it by nothing. -/
def moved (tl : Timeline T S) (timestamp : T) : Timeline T S :=
  let last := tl.lastTimestamp.getD timestamp
  let (time, running) := tl.land (TimeScalar.add tl.time (TimeScalar.sub timestamp last))
  { tl with
    handle := none
    time
    running
    lastTimestamp := if running then some timestamp else none }

def frameNumber (tl : Timeline T S) : Except ArithFault Int := TimeScalar.frameAt tl.time tl.fps

/-- A clock that is stopped. -/
def halted (tl : Timeline T S) : Timeline T S :=
  { tl with running := false, handle := none, lastTimestamp := none }

omit [TimeScalar T] in
theorem halted_running (tl : Timeline T S) : tl.halted.running = false := rfl

theorem moved_subscribers (tl : Timeline T S) (timestamp : T) :
    (tl.moved timestamp).subscribers = tl.subscribers := rfl

theorem land_live {tl : Timeline T S} (h : tl.mode = .live) (next : T) :
    tl.land next = (next, true) := by
  simp [land, h]

end Timeline

end Cuesheet
