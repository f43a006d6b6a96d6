import SeedGrowth.Value.Index

/-!
# Flags

A set of flags, numbered from zero up to a fixed capacity, in words of 64 bits,
together with a value that is carried along. Flags are values: setting or
clearing a flag makes new ones. `Flags.mem` shows them as a set, and the small
lemmas here say what each operation does to it.
-/
namespace SeedGrowth

/-- A word of flags. -/
abbrev Word := BitVec wordSize

/-- Flags and the value they carry. -/
structure Flags (α : Type) where
  words : List Word
  carried : α

namespace Flags

variable {α : Type}

/-- No flag is set. -/
def none (c : Capacity) (carried : α) : Flags α := ⟨List.replicate c.words 0, carried⟩

/-- Flags in memory, of which none is set, if there is room for their words. The words of
a capacity that was given as a real cannot be counted. -/
def allocate (c : Capacity) (carried : α) (memory : Nat := memoryLimit) :
    Except Fault (Flags α) :=
  if c.real then .error (.mismatch (.repetition .real))
  else if placeLimit ≤ c.words then .error .countTooLarge
  else if memory ≤ c.words then .error .outOfMemory
  else .ok (none c carried)

theorem eq_of_allocate {c : Capacity} {a : α} {memory : Nat} {f : Flags α}
    (h : allocate c a memory = .ok f) : f = none c a := by
  unfold allocate at h
  split at h
  · cases h
  · split at h
    · cases h
    · split at h <;> cases h
      rfl

/-- The number of flags there are. -/
def capacity (f : Flags α) : Nat := f.words.length * wordSize

/-- A flag's state; a number beyond the capacity is never set. -/
def mem (f : Flags α) (i : Nat) : Bool := (f.words.getD (i / wordSize) 0).getLsbD (i % wordSize)

/-- The number of the flag that a value stands for. The words are looked up in a row
of the given kind. -/
def locate (f : Flags α) (row : Kind) (i : Value) : Except Fault Nat :=
  i.bounded (.below f.capacity) (.flagOutOfRange · f.capacity) (.place row .real)

/-- The word that holds one flag only. -/
def mask (i : Nat) : Word := BitVec.twoPow wordSize (i % wordSize)

/-- The flags with one set. -/
def insert (f : Flags α) (i : Nat) : Flags α :=
  { f with words := f.words.modify (i / wordSize) (· ||| mask i) }

/-- The flags with one cleared. -/
def erase (f : Flags α) (i : Nat) : Flags α :=
  { f with words := f.words.modify (i / wordSize) (· &&& ~~~ mask i) }

/-- Whether a flag is set. -/
def check (f : Flags α) (i : Value) : Except Fault Bool := f.mem <$> f.locate .tuple i

/-- Sets a flag. -/
def set (f : Flags α) (i : Value) : Except Fault (Flags α) := f.insert <$> f.locate .list i

/-- Clears a flag. -/
def clear (f : Flags α) (i : Value) : Except Fault (Flags α) := f.erase <$> f.locate .list i

/-- Clears all flags. -/
def clearAll (f : Flags α) : Flags α := { f with words := f.words.map fun _ => 0 }

/-- Some flag is set. -/
def any (f : Flags α) : Bool := f.words.any (· != 0)

/-- The numbers of the flags that are set in a word, the first flag of which has the
given number. -/
def wordFlags (word : Word) (first : Nat) : List Nat :=
  if word = 0 then []
  else (List.range wordSize).filterMap fun k => if word.getLsbD k then some (first + k) else .none

/-- The flags that are set in words, the first of which has the given number. -/
def listFrom : Nat → List Word → List Nat
  | _, [] => []
  | k, word :: rest => wordFlags word (k * wordSize) ++ listFrom (k + 1) rest

/-- The flags that are set, in ascending order. -/
def toList (f : Flags α) : List Nat := listFrom 0 f.words

/-- The same flags carrying another value. -/
def carrying {β : Type} (f : Flags α) (carried : β) : Flags β := ⟨f.words, carried⟩

/-- What a hash is computed from: the words alone. -/
def fingerprint (f : Flags α) : List Word := f.words

/-- Equal words carry equal values. -/
def same (sameCarried : α → α → Bool) (f g : Flags α) : Bool :=
  f.words == g.words && sameCarried f.carried g.carried

/-- The written form of flags, given that of what they carry. -/
def written (carried : String) (f : Flags α) : String :=
  s!"RecursiveInfo(capacity={f.capacity}, flags={f.toList}, copy={carried})"

theorem mem_wordFlags {word : Word} {first i : Nat} :
    i ∈ wordFlags word first ↔ ∃ k < wordSize, word.getLsbD k = true ∧ i = first + k := by
  unfold wordFlags
  split
  · next h => simp [h]
  · simp only [List.mem_filterMap, List.mem_range]
    constructor
    · rintro ⟨k, hk, h⟩
      split at h
      · next hb => exact ⟨k, hk, hb, (Option.some.inj h).symm⟩
      · cases h
    · rintro ⟨k, hk, hb, rfl⟩
      exact ⟨k, hk, by simp [hb]⟩

theorem mem_listFrom {k i : Nat} {words : List Word} :
    i ∈ listFrom k words ↔
      k * wordSize ≤ i ∧ (words.getD (i / wordSize - k) 0).getLsbD (i % wordSize) = true := by
  induction words generalizing k with
  | nil => simp [listFrom]
  | cons word rest ih =>
    rw [listFrom, List.mem_append, mem_wordFlags, ih]
    simp only [wordSize] at *
    by_cases hk : i / 64 = k
    · subst hk
      simp only [Nat.sub_self, List.getD_cons_zero]
      constructor
      · rintro (⟨j, hj, hb, h⟩ | ⟨h, _⟩)
        · have : j = i % 64 := by omega
          exact ⟨by omega, this ▸ hb⟩
        · omega
      · rintro ⟨_, hb⟩
        exact .inl ⟨i % 64, by omega, hb, by omega⟩
    · by_cases hl : k < i / 64
      · have hs : i / 64 - k = i / 64 - (k + 1) + 1 := by omega
        rw [hs, List.getD_cons_succ]
        constructor
        · rintro (⟨j, hj, hb, h⟩ | ⟨h, hb⟩)
          · omega
          · exact ⟨by omega, hb⟩
        · rintro ⟨_, hb⟩
          exact .inr ⟨by omega, hb⟩
      · constructor
        · rintro (⟨j, hj, hb, h⟩ | ⟨h, _⟩) <;> omega
        · rintro ⟨h, _⟩
          omega

/-- The list of flags holds those that are set. -/
theorem mem_toList {f : Flags α} {i : Nat} : i ∈ f.toList ↔ f.mem i = true := by
  simp [toList, mem_listFrom, mem]

theorem locate_natCast {f : Flags α} {i : Nat} (h : i < f.capacity) (row : Kind) :
    f.locate row (.int i) = .ok i :=
  Value.bounded_natCast (by simp [Bound.holds, h]) ..

@[simp] theorem capacity_none (c : Capacity) (a : α) : (none c a).capacity = c.size := by
  simp [none, capacity, Capacity.size]

@[simp] theorem capacity_insert (f : Flags α) (i : Nat) : (f.insert i).capacity = f.capacity := by
  simp [insert, capacity]

@[simp] theorem capacity_erase (f : Flags α) (i : Nat) : (f.erase i).capacity = f.capacity := by
  simp [erase, capacity]

@[simp] theorem capacity_clearAll (f : Flags α) : f.clearAll.capacity = f.capacity := by
  simp [clearAll, capacity]

@[simp] theorem capacity_carrying {β : Type} (f : Flags α) (b : β) :
    (f.carrying b).capacity = f.capacity := rfl

@[simp] theorem mem_carrying {β : Type} (f : Flags α) (b : β) (i : Nat) :
    (f.carrying b).mem i = f.mem i := rfl

@[simp] theorem carried_carrying {β : Type} (f : Flags α) (b : β) :
    (f.carrying b).carried = b := rfl

@[simp] theorem carried_insert (f : Flags α) (i : Nat) : (f.insert i).carried = f.carried := rfl

@[simp] theorem carried_erase (f : Flags α) (i : Nat) : (f.erase i).carried = f.carried := rfl

@[simp] theorem carried_clearAll (f : Flags α) : f.clearAll.carried = f.carried := rfl

@[simp] theorem mem_none (c : Capacity) (a : α) (i : Nat) : (none c a).mem i = false := by
  simp only [mem, none, List.getD_eq_getElem?_getD, List.getElem?_replicate]
  split <;> simp

theorem mem_eq_false_of_le {f : Flags α} {i : Nat} (h : f.capacity ≤ i) : f.mem i = false := by
  have hl : f.words.length ≤ i / wordSize := by
    simp only [capacity, wordSize] at *; omega
  simp [mem, List.getD_eq_getElem?_getD, List.getElem?_eq_none hl]

@[simp] theorem mem_clearAll (f : Flags α) (i : Nat) : f.clearAll.mem i = false := by
  simp only [mem, clearAll, List.getD_eq_getElem?_getD, List.getElem?_map]
  cases f.words[i / wordSize]? <;> simp

theorem word_lt {f : Flags α} {i : Nat} (h : i < f.capacity) : i / wordSize < f.words.length := by
  simp only [capacity, wordSize] at *; omega

theorem getElem_mask (i : Nat) {k : Nat} (h : k < wordSize) :
    (mask i)[k] = decide (i % wordSize = k) := by
  simp [mask, BitVec.getElem_twoPow, eq_comm]

/-- Setting a flag adds it to the set. -/
theorem mem_insert {f : Flags α} {i : Nat} (h : i < f.capacity) (j : Nat) :
    (f.insert i).mem j = (f.mem j || decide (j = i)) := by
  have hk : j % wordSize < wordSize := Nat.mod_lt _ (by decide)
  simp only [mem, insert, List.getD_eq_getElem?_getD, List.getElem?_modify]
  by_cases hw : i / wordSize = j / wordSize
  · have hj : j = i ↔ i % wordSize = j % wordSize := by simp only [wordSize] at *; omega
    have hl := word_lt h
    simp [hw, hw ▸ hl, getElem_mask _ hk, hj, hk]
  · have hj : j ≠ i := by rintro rfl; exact hw rfl
    simp [hw, hj]

/-- Clearing a flag takes it out of the set. -/
theorem mem_erase (f : Flags α) (i j : Nat) :
    (f.erase i).mem j = (f.mem j && decide (j ≠ i)) := by
  have hk : j % wordSize < wordSize := Nat.mod_lt _ (by decide)
  simp only [mem, erase, List.getD_eq_getElem?_getD, List.getElem?_modify]
  by_cases hw : i / wordSize = j / wordSize
  · have hj : j = i ↔ i % wordSize = j % wordSize := by simp only [wordSize] at *; omega
    cases hf : f.words[j / wordSize]? with
    | none => simp
    | some word => simp [hw, getElem_mask _ hk, hj, hk]
  · have hj : j ≠ i := by rintro rfl; exact hw rfl
    simp [hw, hj]

end Flags

end SeedGrowth
