import Mathlib.Data.Finset.Basic
import Mathlib.Data.Int.Bitwise
import SeedGrowth.Capacity.OfValue
import SeedGrowth.Flags.Basic
import SeedGrowth.Proofs.Program
import SeedGrowth.Proofs.Value.Written

/-!
# The history of flags

Flags are words of bits, and what they stand for is a finite set of numbers below their
capacity, together with a value. Whatever is done to flags is done to the set: setting a
flag adds a number, clearing one takes a number out, and what fails changes nothing. So
after any history the flags answer as the set does.
-/
namespace SeedGrowth.Flags

variable {α : Type} {f g : Flags α}

/-! ### The set that flags stand for -/

/-- The numbers of the flags that are set. -/
def members (f : Flags α) : Finset ℕ := (Finset.range f.capacity).filter fun i => f.mem i = true

theorem mem_members {i : ℕ} : i ∈ f.members ↔ f.mem i = true := by
  simp only [members, Finset.mem_filter, Finset.mem_range, and_iff_right_iff_imp]
  intro hmem
  by_contra hi
  rw [mem_eq_false_of_le (Nat.le_of_not_lt hi)] at hmem
  cases hmem

theorem lt_capacity_of_mem {i : ℕ} (h : i ∈ f.members) : i < f.capacity :=
  Finset.mem_range.1 (Finset.mem_filter.1 h).1

@[simp] theorem members_none (c : Capacity) (a : α) : (none c a).members = ∅ := by
  ext i
  simp [mem_members]

@[simp] theorem members_clearAll (f : Flags α) : f.clearAll.members = ∅ := by
  ext i
  simp [mem_members]

@[simp] theorem members_carrying (f : Flags α) (a : α) : (f.carrying a).members = f.members := rfl

@[simp] theorem members_erase (f : Flags α) (i : ℕ) : (f.erase i).members = f.members.erase i := by
  ext j
  simp [mem_members, mem_erase, and_comm]

theorem members_insert {i : ℕ} (h : i < f.capacity) :
    (f.insert i).members = Insert.insert i f.members := by
  ext j
  simp [mem_members, mem_insert h, or_comm]

/-! ### The words -/

theorem mem_eq_getLsbD {k : ℕ} (h : k < f.words.length) {j : ℕ} (hj : j < wordSize) :
    f.mem (k * wordSize + j) = f.words[k].getLsbD j := by
  have hdiv : (k * wordSize + j) / wordSize = k := by
    simp only [wordSize] at *; omega
  have hmod : (k * wordSize + j) % wordSize = j := by
    simp only [wordSize] at *; omega
  rw [mem, hdiv, hmod, List.getD_eq_getElem?_getD, List.getElem?_eq_getElem h, Option.getD_some]

/-- Flags that stand for the same set have the same words. -/
theorem words_eq_iff : f.words = g.words ↔ f.capacity = g.capacity ∧ f.members = g.members := by
  constructor
  · intro h
    have hmem : f.mem = g.mem := by
      funext i
      simp only [mem, h]
    refine ⟨by simp only [capacity, h], ?_⟩
    ext i
    rw [mem_members, mem_members, hmem]
  · rintro ⟨hcapacity, hmembers⟩
    have hlength : f.words.length = g.words.length := by
      simp only [capacity, wordSize] at hcapacity
      omega
    refine List.ext_getElem hlength fun k hf hg => BitVec.eq_of_getLsbD_eq fun j hj => ?_
    rw [← mem_eq_getLsbD hf hj, ← mem_eq_getLsbD hg hj, Bool.eq_iff_iff, ← mem_members,
      ← mem_members, hmembers]

/-- The words as whole numbers. -/
def integers (f : Flags α) : List ℤ := f.words.map fun word => (word.toNat : ℤ)

theorem toNat_mask (i : ℕ) : (mask i).toNat = 2 ^ (i % wordSize) := by
  rw [mask, BitVec.toNat_twoPow]
  exact Nat.mod_eq_of_lt (Nat.pow_lt_pow_right Nat.one_lt_two (Nat.mod_lt _ (by decide)))

/-- A change to one word changes one of the whole numbers. -/
theorem map_modify {words : List Word} {k : ℕ} {change : Word → Word} {change' : ℤ → ℤ}
    (h : ∀ word, ((change word).toNat : ℤ) = change' word.toNat) :
    (words.modify k change).map (fun word => (word.toNat : ℤ)) =
      (words.map fun word => (word.toNat : ℤ)).modify k change' := by
  refine List.ext_getElem? fun j => ?_
  rw [List.getElem?_map, List.getElem?_modify, List.getElem?_modify, List.getElem?_map]
  by_cases hj : k = j
  · simp [hj, h, Function.comp_def]
  · simp [hj]

/-- Setting a flag sets a bit of a whole number. -/
theorem integers_insert (f : Flags α) (i : ℕ) :
    (f.insert i).integers =
      f.integers.modify (i / wordSize) fun n => n.lor ((2 ^ (i % wordSize) : ℕ) : ℤ) := by
  refine map_modify fun word => ?_
  rw [BitVec.toNat_or, toNat_mask]
  rfl

/-- Clearing a flag is done with the complement of the bit, which is a number below zero. -/
theorem integers_erase (f : Flags α) (i : ℕ) :
    (f.erase i).integers =
      f.integers.modify (i / wordSize) fun n =>
        n.land ((2 ^ (i % wordSize) : ℕ) : ℤ).lnot := by
  refine map_modify fun word => ?_
  change ((word &&& ~~~ mask i).toNat : ℤ) = (word.toNat.ldiff (2 ^ (i % wordSize)) : ℕ)
  congr 1
  refine Nat.eq_of_testBit_eq fun j => ?_
  rw [Nat.testBit_ldiff, ← toNat_mask, BitVec.testBit_toNat, BitVec.testBit_toNat,
    BitVec.testBit_toNat, BitVec.getLsbD_and, BitVec.getLsbD_not]
  by_cases hj : j < wordSize
  · simp [hj]
  · simp [BitVec.getLsbD_of_ge word j (Nat.le_of_not_lt hj)]

/-! ### The list of flags -/

theorem pairwise_wordFlags (word : Word) (first : ℕ) : (wordFlags word first).Pairwise (· < ·) := by
  unfold wordFlags
  split
  · exact .nil
  · refine List.pairwise_lt_range.filterMap _ fun k k' hlt i hi i' hi' => ?_
    split at hi <;> cases hi
    split at hi' <;> cases hi'
    exact Nat.add_lt_add_left hlt first

theorem pairwise_listFrom (k : ℕ) (words : List Word) : (listFrom k words).Pairwise (· < ·) := by
  induction words generalizing k with
  | nil => exact .nil
  | cons word rest ih =>
    refine List.pairwise_append.2 ⟨pairwise_wordFlags .., ih (k + 1), fun i hi i' hi' => ?_⟩
    obtain ⟨j, hj, -, rfl⟩ := mem_wordFlags.1 hi
    obtain ⟨hle, -⟩ := mem_listFrom.1 hi'
    simp only [wordSize] at *
    omega

theorem any_eq_true : f.any = true ↔ f.members.Nonempty := by
  constructor
  · intro h
    obtain ⟨word, hword, hne⟩ := List.any_eq_true.1 h
    obtain ⟨k, hk, rfl⟩ := List.mem_iff_getElem.1 hword
    obtain ⟨j, hj, hbit⟩ : ∃ j, j < wordSize ∧ f.words[k].getLsbD j = true := by
      by_contra hnone
      refine (bne_iff_ne.1 hne) (BitVec.eq_of_getLsbD_eq fun j hj => ?_)
      have hbit : f.words[k].getLsbD j = false := by
        by_contra hbit
        exact hnone ⟨j, hj, Bool.eq_true_of_not_eq_false hbit⟩
      simpa using hbit
    exact ⟨_, mem_members.2 ((mem_eq_getLsbD hk hj).trans hbit)⟩
  · rintro ⟨i, hi⟩
    have hk := word_lt (lt_capacity_of_mem hi)
    refine List.any_eq_true.2 ⟨_, List.getElem_mem hk, bne_iff_ne.2 fun hzero => ?_⟩
    have hmem := mem_members.1 hi
    rw [mem, List.getD_eq_getElem?_getD, List.getElem?_eq_getElem hk, Option.getD_some, hzero] at hmem
    simp at hmem

/-! ### One step -/

/-- What can be done to flags. -/
inductive Use (α : Type) where
  | set (i : ℤ)
  | clear (i : ℤ)
  | clearAll
  | carry (a : α)

/-- The flags after this has been done to them. -/
def perform (f : Flags α) : Use α → Except Fault (Flags α)
  | .set i => f.set (.int i)
  | .clear i => f.clear (.int i)
  | .clearAll => .ok f.clearAll
  | .carry a => .ok (f.carrying a)

/-- The flags after all this. They stay as they were where something fails. -/
def after (f : Flags α) : List (Use α) → Flags α
  | [] => f
  | use :: rest => ((f.perform use).toOption.getD f).after rest

/-- A set of numbers and a value that is carried along. -/
structure View (α : Type) where
  members : Finset ℕ
  carried : α
deriving DecidableEq

/-- What flags show of themselves. -/
def view (f : Flags α) : View α := ⟨f.members, f.carried⟩

/-- Numbers from zero up to `n` are added and taken out; others change nothing. -/
def View.perform (n : ℕ) (v : View α) : Use α → View α
  | .set i => if 0 ≤ i ∧ i < n then { v with members := Insert.insert i.toNat v.members } else v
  | .clear i => if 0 ≤ i ∧ i < n then { v with members := v.members.erase i.toNat } else v
  | .clearAll => { v with members := ∅ }
  | .carry a => { v with carried := a }

/-- The set and the value after all this. -/
def View.after (n : ℕ) (v : View α) (uses : List (Use α)) : View α := uses.foldl (perform n) v

theorem locate_of_lt {i : ℤ} (h : 0 ≤ i ∧ i < f.capacity) (row : Kind) :
    f.locate row (.int i) = .ok i.toNat ∧ i.toNat < f.capacity := by
  obtain ⟨h0, hlt⟩ := h
  have hnat : i.toNat < f.capacity := by omega
  have hlocate := locate_natCast hnat row
  rw [Int.toNat_of_nonneg h0] at hlocate
  exact ⟨hlocate, hnat⟩

/-- A number of no flag is reported, and by itself if it can be written. -/
theorem locate_eq_error {i : ℤ} (h : ¬ (0 ≤ i ∧ i < f.capacity)) :
    ∃ fault, (∀ row, f.locate row (.int i) = .error fault) ∧
      ((Value.int i).writable = true → fault = .flagOutOfRange (toString i) f.capacity) := by
  have hout : (Bound.below f.capacity).holds (.int i) = false := by
    simpa [Bound.holds] using h
  have hlocate : ∀ row, f.locate row (.int i) =
      (integerText i >>= fun text => .error (.flagOutOfRange text f.capacity)) := by
    intro row
    simp only [locate, Value.bounded, Value.number?, hout]
    rfl
  cases htext : integerText i with
  | ok text =>
    refine ⟨_, fun row => by rw [hlocate, htext]; rfl, fun hw => ?_⟩
    rw [integerText_eq_ok hw] at htext
    cases htext
    rfl
  | error fault =>
    refine ⟨fault, fun row => by rw [hlocate, htext]; rfl, fun hw => ?_⟩
    rw [integerText_eq_ok hw] at htext
    cases htext

/-- Whatever asks for the flag of a number of no flag fails. -/
theorem map_locate_eq_error {β : Type} {i : ℤ} (h : ¬ (0 ≤ i ∧ i < f.capacity)) :
    ∃ fault, (∀ row (change : ℕ → β), change <$> f.locate row (.int i) = .error fault) ∧
      ((Value.int i).writable = true → fault = .flagOutOfRange (toString i) f.capacity) := by
  obtain ⟨fault, hlocate, hreport⟩ := locate_eq_error h
  exact ⟨fault, fun row change => by rw [hlocate row]; rfl, hreport⟩

/-- What is done to flags is done to their set, and there are as many as before. -/
theorem view_perform (f : Flags α) (use : Use α) :
    ((f.perform use).toOption.getD f).capacity = f.capacity ∧
      ((f.perform use).toOption.getD f).view = f.view.perform f.capacity use := by
  cases use with
  | set i =>
    by_cases hi : 0 ≤ i ∧ i < f.capacity
    · obtain ⟨hlocate, hlt⟩ := locate_of_lt hi .list
      have hset : f.perform (.set i) = .ok (f.insert i.toNat) := by
        simp only [perform, set, hlocate]
        rfl
      simp [hset, Except.toOption, view, View.perform, hi, members_insert hlt]
    · obtain ⟨fault, hlocate, -⟩ := map_locate_eq_error hi
      have hset : f.perform (.set i) = .error fault := hlocate .list f.insert
      simp [hset, Except.toOption, View.perform, hi]
  | clear i =>
    by_cases hi : 0 ≤ i ∧ i < f.capacity
    · obtain ⟨hlocate, -⟩ := locate_of_lt hi .list
      have hclear : f.perform (.clear i) = .ok (f.erase i.toNat) := by
        simp only [perform, clear, hlocate]
        rfl
      simp [hclear, Except.toOption, view, View.perform, hi]
    · obtain ⟨fault, hlocate, -⟩ := map_locate_eq_error hi
      have hclear : f.perform (.clear i) = .error fault := hlocate .list f.erase
      simp [hclear, Except.toOption, View.perform, hi]
  | clearAll => simp [perform, Except.toOption, view, View.perform]
  | carry a => simp [perform, Except.toOption, view, View.perform]

/-! ### All steps -/

theorem view_after (f : Flags α) (uses : List (Use α)) :
    (f.after uses).capacity = f.capacity ∧
      (f.after uses).view = f.view.after f.capacity uses := by
  induction uses generalizing f with
  | nil => exact ⟨rfl, rfl⟩
  | cons use rest ih =>
    obtain ⟨hcapacity, hview⟩ := f.view_perform use
    obtain ⟨hafter, hrest⟩ := ih ((f.perform use).toOption.getD f)
    refine ⟨hafter.trans hcapacity, hrest.trans ?_⟩
    rw [hcapacity, hview]
    rfl

/-- How flags from zero up to `n` answer for a set and a value. -/
structure Answers (f : Flags α) (n : ℕ) (v : View α) : Prop where
  capacity : f.capacity = n
  carried : f.carried = v.carried
  members_lt : ∀ i ∈ v.members, i < n
  check : ∀ i < n, f.check (.int i) = .ok (decide (i ∈ v.members))
  /-- A flag is set by a bit of its word, and nothing else is changed. -/
  set : ∀ i < n, ∃ g, f.set (.int i) = .ok g ∧ g.carried = f.carried ∧
    g.integers = f.integers.modify (i / wordSize) fun word =>
      word.lor ((2 ^ (i % wordSize) : ℕ) : ℤ)
  clear : ∀ i < n, ∃ g, f.clear (.int i) = .ok g ∧ g.carried = f.carried ∧
    g.integers = f.integers.modify (i / wordSize) fun word =>
      word.land ((2 ^ (i % wordSize) : ℕ) : ℤ).lnot
  /-- A number of no flag is refused by name, if it can be written. -/
  outside : ∀ i : ℤ, ¬ (0 ≤ i ∧ i < n) → (Value.int i).writable = true →
    f.check (.int i) = .error (.flagOutOfRange (toString i) n) ∧
    f.set (.int i) = .error (.flagOutOfRange (toString i) n) ∧
    f.clear (.int i) = .error (.flagOutOfRange (toString i) n)
  ascending : f.toList.Pairwise (· < ·)
  mem_list : ∀ i, i ∈ f.toList ↔ i ∈ v.members
  any : f.any = true ↔ v.members.Nonempty
  integers : ∀ word ∈ f.integers, 0 ≤ word ∧ word < 2 ^ wordSize
  bit : ∀ k word, f.integers[k]? = some word → ∀ j < wordSize,
    word.testBit j = decide (k * wordSize + j ∈ v.members)

theorem mem_integers {word : ℤ} (h : word ∈ f.integers) : 0 ≤ word ∧ word < 2 ^ wordSize := by
  obtain ⟨bits, -, rfl⟩ := List.mem_map.1 h
  have hlt := bits.isLt
  constructor
  · omega
  · exact_mod_cast hlt

theorem testBit_integers {k : ℕ} {word : ℤ} (h : f.integers[k]? = some word) {j : ℕ}
    (hj : j < wordSize) : word.testBit j = decide (k * wordSize + j ∈ f.members) := by
  rw [integers, List.getElem?_map, Option.map_eq_some_iff] at h
  obtain ⟨bits, hbits, rfl⟩ := h
  obtain ⟨hk, rfl⟩ := List.getElem?_eq_some_iff.1 hbits
  simp only [mem_members, mem_eq_getLsbD hk hj, Bool.decide_eq_true]
  rfl

/-- Flags answer for what they show. -/
theorem answers_view (f : Flags α) : f.Answers f.capacity f.view where
  capacity := rfl
  carried := rfl
  members_lt _ hi := lt_capacity_of_mem hi
  check i hi := by
    rw [check, locate_natCast hi]
    simp [view, mem_members, Functor.map, Except.map]
  set i hi := by
    have hset : f.set (.int i) = .ok (f.insert i) := by
      rw [set, locate_natCast hi]
      rfl
    exact ⟨_, hset, carried_insert f i, integers_insert f i⟩
  clear i hi := by
    have hclear : f.clear (.int i) = .ok (f.erase i) := by
      rw [clear, locate_natCast hi]
      rfl
    exact ⟨_, hclear, carried_erase f i, integers_erase f i⟩
  outside i hi hw := by
    obtain ⟨fault, hlocate, hreport⟩ := locate_eq_error hi
    rw [← hreport hw, check, set, clear, hlocate, hlocate]
    exact ⟨rfl, rfl, rfl⟩
  ascending := pairwise_listFrom ..
  mem_list i := by rw [mem_toList, view, mem_members]
  any := any_eq_true
  integers _ hword := mem_integers hword
  bit _ _ hword _ hj := testBit_integers hword hj

/-- Flags are the same if there are as many, if they stand for the same set, and if they carry
the same. -/
theorem same_iff {sameCarried : α → α → Bool} :
    f.same sameCarried g = true ↔ f.capacity = g.capacity ∧ f.members = g.members ∧
      sameCarried f.carried g.carried = true := by
  rw [same, Bool.and_eq_true_iff, beq_iff_eq, words_eq_iff, and_assoc]

/-- New flags for a capacity that is given as a whole number. -/
def create (n : ℤ) (a : α) (memory : ℕ := memoryLimit) : Except Fault (Flags α) := do
  allocate (← Capacity.ofValue (.int n)) a memory

/-- For words that can be counted and held in memory there is room. -/
theorem exists_create {n memory : ℕ} (hpos : 0 < n) (hdvd : wordSize ∣ n)
    (hplace : n < placeLimit * wordSize) (hroom : n < memory * wordSize) (a : α) :
    ∃ start, create n a memory = .ok start := by
  obtain ⟨words, rfl⟩ := hdvd
  have hlt : words < memory := by
    simp only [wordSize] at hroom
    omega
  have hplace : words < placeLimit := by
    simp only [wordSize] at hplace
    omega
  have hcapacity : Capacity.ofValue (.int (wordSize * words : ℕ)) =
      .ok ⟨words, Nat.pos_of_mul_pos_left hpos, false⟩ :=
    Capacity.ofValue_int_eq_ok_iff.2 ⟨by rw [Nat.mul_comm]; rfl, rfl⟩
  rw [create, hcapacity, ok_bind, allocate, if_neg (by simp), if_neg (Nat.not_le.2 hplace),
    if_neg (Nat.not_le.2 hlt)]
  exact ⟨_, rfl⟩

theorem eq_of_create {n memory : ℕ} {a : α} {start : Flags α}
    (h : create n a memory = .ok start) : start.capacity = n ∧ start.view = ⟨∅, a⟩ := by
  obtain ⟨c, hcapacity, hallocate⟩ := bind_eq_ok.1 h
  obtain ⟨hsize, -⟩ := Capacity.ofValue_int_eq_ok_iff.1 hcapacity
  rw [eq_of_allocate hallocate]
  constructor
  · rw [capacity_none]
    omega
  · rw [view, members_none]
    rfl

/-- New flags, after whatever has been done to them, answer as a set does to which the same has
been done, and they are the same as other flags if set, value and capacity are. -/
theorem create_answers {n memory : ℕ} (hpos : 0 < n) (hdvd : wordSize ∣ n)
    (hplace : n < placeLimit * wordSize) (hroom : n < memory * wordSize) (a : α) :
    ∃ start, create n a memory = .ok start ∧ ∀ uses,
      let v := View.after n ⟨∅, a⟩ uses
      (start.after uses).Answers n v ∧
        ∀ (m memory' : ℕ) (b : α) (start' : Flags α), create m b memory' = .ok start' →
          ∀ uses' sameCarried,
          let w := View.after m ⟨∅, b⟩ uses'
          ((start.after uses).same sameCarried (start'.after uses') = true ↔
            n = m ∧ v.members = w.members ∧ sameCarried v.carried w.carried = true) ∧
          ((start.after uses).same sameCarried (start'.after uses') = true →
            (start.after uses).fingerprint = (start'.after uses').fingerprint) := by
  obtain ⟨start, hstart⟩ := exists_create hpos hdvd hplace hroom a
  refine ⟨start, hstart, fun uses => ?_⟩
  obtain ⟨hn, hview⟩ := eq_of_create hstart
  obtain ⟨hcapacity, hafter⟩ := start.view_after uses
  rw [hn] at hcapacity hafter
  rw [hview] at hafter
  refine ⟨hafter ▸ hcapacity ▸ answers_view _,
    fun m memory' b start' hstart' uses' sameCarried => ?_⟩
  obtain ⟨hm, hview'⟩ := eq_of_create hstart'
  obtain ⟨hcapacity', hafter'⟩ := start'.view_after uses'
  rw [hm] at hcapacity' hafter'
  rw [hview'] at hafter'
  constructor
  · rw [same_iff, hcapacity, hcapacity', ← hafter, ← hafter']
    exact Iff.rfl
  · intro hsame
    obtain ⟨hwords, hmembers, -⟩ := same_iff.1 hsame
    exact words_eq_iff.2 ⟨hwords, hmembers⟩

/-- A flag at either end of a word, and one beyond them all. -/
def borderUses : List (Use ℕ) := [.set 63, .set 64, .set 128, .carry 7, .clear 63, .clear (-1)]

/-- Flags in two words, with one of them set in the end. -/
theorem create_answers_borderUses :
    (0 < 128 ∧ wordSize ∣ 128 ∧ 128 < placeLimit * wordSize ∧ 128 < memoryLimit * wordSize) ∧
      ∃ start, create (128 : ℕ) 0 = .ok start ∧ (start.after borderUses).Answers 128 ⟨{64}, 7⟩ := by
  have hroom : 0 < 128 ∧ wordSize ∣ 128 ∧ 128 < placeLimit * wordSize ∧
      128 < memoryLimit * wordSize := by decide
  obtain ⟨start, hstart, hanswers⟩ :=
    create_answers hroom.1 hroom.2.1 hroom.2.2.1 hroom.2.2.2 0
  have hview : View.after 128 ⟨∅, 0⟩ borderUses = ⟨{64}, 7⟩ := by decide
  exact ⟨hroom, start, hstart, hview ▸ (hanswers borderUses).1⟩

/-- The capacity of so many words that they cannot be counted. -/
def uncountable : Capacity := ⟨18446744073709551616, by decide, false⟩

/-- A capacity may be a multiple of the word size, and there is no room for its words. And the
number of a flag may be too long to be told of. -/
theorem create_departs :
    (0 < 1180591620717411303424 ∧ wordSize ∣ 1180591620717411303424 ∧
      create 1180591620717411303424 () = .error .countTooLarge) ∧
      ∃ start, create 64 () = .ok start ∧ start.capacity ≤ Nat.pow 10 4300 ∧
        start.check (.int (Nat.pow 10 4300)) = .error .unwritableInteger := by
  refine ⟨⟨by decide, by decide, ?_⟩, none .standard (), rfl, ?_, ?_⟩
  · have hsize : (1180591620717411303424 : ℤ) = uncountable.size := by decide
    have hcapacity := Capacity.ofValue_int_eq_ok_iff.2 ⟨hsize, rfl⟩
    have hwords : placeLimit ≤ uncountable.words := by decide
    rw [create, hcapacity, ok_bind, allocate, if_neg (by decide), if_pos hwords]
  · decide +kernel
  · decide +kernel

end SeedGrowth.Flags
