/-!
# Entries in insertion order

Attributes, properties and other small tables are lists of entries whose order shows: a new key
goes to the end, and a key that is there keeps its place and takes the new value.
-/

namespace Cuesheet

/-- Keys with values, in the order in which the keys were first put. -/
abbrev Entries (α β : Type) := List (α × β)

namespace Entries

variable {α β : Type} [BEq α]

def value? (entries : Entries α β) (key : α) : Option β :=
  (entries.find? fun entry => entry.1 == key).map (·.2)

def hasKey (entries : Entries α β) (key : α) : Bool := entries.any fun entry => entry.1 == key

def keys (entries : Entries α β) : List α := List.map (·.1) entries

/-- Gives a key a value: in place if the key is there, else at the end. -/
def put (entries : Entries α β) (key : α) (value : β) : Entries α β :=
  match entries with
  | [] => [(key, value)]
  | entry :: rest => if entry.1 == key then (entry.1, value) :: rest else entry :: put rest key value

def remove (entries : Entries α β) (key : α) : Entries α β :=
  entries.filter fun entry => !(entry.1 == key)

/-- Puts all entries of `more`, one after the other. -/
def putAll (entries more : Entries α β) : Entries α β :=
  more.foldl (fun es entry => es.put entry.1 entry.2) entries

/-- The entries of a list of pairs, the last value of a repeated key winning. -/
def ofList (pairs : List (α × β)) : Entries α β := putAll [] pairs

@[simp] theorem value?_nil (key : α) : value? ([] : Entries α β) key = none := rfl

theorem value?_cons (entry : α × β) (rest : Entries α β) (key : α) :
    value? (entry :: rest) key = if entry.1 == key then some entry.2 else value? rest key := by
  simp only [value?, List.find?_cons]
  split <;> simp_all

theorem value?_put [LawfulBEq α] (entries : Entries α β) (key key' : α) (value : β) :
    (entries.put key value).value? key' = if key == key' then some value
      else entries.value? key' := by
  induction entries with
  | nil => simp [put, value?_cons]
  | cons entry rest ih =>
    rw [put]
    split
    · rename_i h
      have h := eq_of_beq h
      simp only [value?_cons, h]
      split <;> rfl
    · rename_i h
      simp only [value?_cons, ih]
      split
      · rename_i h'
        have h' := eq_of_beq h'
        have hne : ¬ (key == key') = true := fun e => by
          rw [← eq_of_beq e] at h'
          exact h (by simp [h'])
        simp [hne]
      · rfl

end Entries

end Cuesheet
