/-!
# Dictionaries

A dictionary is a list of entries in the order of their keys, each key once.
Texts are ordered by their code points, which is also the order of their UTF-8
bytes.

## Main definitions

* `Dictionary.insert`: an entry put in its place, in the stead of one with the
  same key
* `Dictionary.get?`: the value of a key
* `Dictionary.ofList`: the dictionary of entries, of which a later one wins

## Main results

* `get?_insert`: what an insertion changes
* `map_get?_ofList`: a dictionary of entries with different keys gives each key
  its value
-/

namespace FeltWire

/-- Entries in the order of their keys. It is `insert` that keeps the order. -/
abbrev Dictionary (α : Type) := List (String × α)

namespace Dictionary

variable {α : Type}

/-- An entry put in its place, in the stead of one with the same `key`. -/
def insert (key : String) (value : α) : Dictionary α → Dictionary α
  | [] => [(key, value)]
  | entry :: rest =>
    if key = entry.1 then (key, value) :: rest
    else if key < entry.1 then (key, value) :: entry :: rest
    else entry :: insert key value rest

/-- The value of a `key`, the first one if there were several. -/
def get? (key : String) : Dictionary α → Option α
  | [] => none
  | entry :: rest => if key = entry.1 then some entry.2 else get? key rest

/-- The dictionary of a list of `entries`; of several with one key the last
wins. -/
def ofList (entries : List (String × α)) : Dictionary α :=
  entries.foldl (fun d entry => insert entry.1 entry.2 d) []

/-- An insertion gives `key` the `value` and changes what `get?` finds for no
other `k`. -/
theorem get?_insert (key : String) (value : α) (d : Dictionary α) (k : String) :
    get? k (insert key value d) = if k = key then some value else get? k d := by
  induction d with
  | nil => rfl
  | cons entry rest ih => grind [insert, get?]

/-- Entries with other keys change nothing for `key`, however many `insert` puts
in. -/
theorem get?_foldl_insert {key : String} {entries : List (String × α)}
    (other : ∀ entry ∈ entries, entry.1 ≠ key) (d : Dictionary α) :
    get? key (entries.foldl (fun d entry => insert entry.1 entry.2 d) d) = get? key d := by
  induction entries generalizing d with
  | nil => rfl
  | cons entry entries ih =>
    have differs : key ≠ entry.1 := fun same => other entry List.mem_cons_self same.symm
    rw [List.foldl_cons, ih fun e he => other e (List.mem_cons_of_mem _ he), get?_insert,
      if_neg differs]

/-- **Entries with different keys** all are in their dictionary: `get?` finds
for each of the `keys` the value next to it. -/
theorem map_get?_ofList {keys : List String} {values : List α} (distinct : keys.Nodup)
    (size : keys.length = values.length) :
    keys.map (fun key => get? key (ofList (keys.zip values))) = values.map some := by
  unfold ofList
  generalize ([] : Dictionary α) = d
  induction keys generalizing values d with
  | nil =>
    obtain rfl : values = [] := List.length_eq_zero_iff.1 size.symm
    rfl
  | cons key keys ih =>
    rcases values with _ | ⟨value, values⟩
    · cases size
    · obtain ⟨new, distinct⟩ := List.nodup_cons.1 distinct
      have others : ∀ entry ∈ keys.zip values, entry.1 ≠ key := fun entry he same =>
        new (same ▸ (List.of_mem_zip he).1)
      simp only [List.map_cons, List.zip_cons_cons, List.foldl_cons]
      rw [get?_foldl_insert others, get?_insert, if_pos rfl, ih distinct (Nat.succ.inj size)]

end Dictionary

end FeltWire
