import Cuesheet.Command.System
import Cuesheet.Patch.Apply

/-!
# The patch command

Applies the patches of a manifest to a document and writes it into another file, unless it no
longer resolves.
-/

namespace Cuesheet.Command

/-- What the patch command is asked for. -/
structure PatchOptions where
  source : String
  manifest : String
  output : String
  enforceSealed : Bool

def patchRules : List OptionRule :=
  [helpRule, ⟨["--manifest"], .value⟩, ⟨["--output"], .value⟩, ⟨["--enforce-sealed"], .flag⟩,
    ⟨["--verbose"], .flag⟩]

/-- Reads the options of the patch command. -/
def PatchOptions.ofStrings (args : List String) : Except Halt PatchOptions :=
  match Parsed.ofStrings patchRules 1 args with
  | .error halt => .error halt
  | .ok p =>
    match p.positionals, p.extras, p.value? "--manifest", p.value? "--output" with
    | [source], [], some manifest, some output =>
      .ok { source, manifest, output, enforceSealed := p.has "--enforce-sealed" }
    | _, _, _, _ => .error .usage

variable {m : Type → Type} [Monad m]

def patch (sys : System m) (options : PatchOptions) : CommandM m Unit := do
  let data ← sys.readManifest options.manifest
  let manifest ← System.check .patchManifest (PatchManifest.ofDatum data)
  let text ← sys.readFile (Path.ofString options.source).text
  let doc ← System.check .markup (Document.ofText text)
  sys.printLine ("Applying " ++ Number.intText manifest.patches.length ++ " patch(es) to "
    ++ options.source)
  let enforce := options.enforceSealed || manifest.enforceSealed
  let patched ← System.check .patch
    (Patch.applyBatch enforce doc (manifest.patches.map .patch))
  let written ← System.check .write (patched.write Xml.Registry.wellKnown).2
  let c : Composition Float ← System.check .composition (Composition.ofText written)
  let out := Path.ofString options.output
  System.check .file (← sys.ensurePath out.parent)
  System.check .file (← sys.write out.text written)
  sys.printLine ("Done: " ++ out.text ++ " (" ++ Number.intText c.scenes.length ++ " scenes)")

end Cuesheet.Command
