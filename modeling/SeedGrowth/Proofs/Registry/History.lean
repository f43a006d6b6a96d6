import SeedGrowth.Flags.Basic
import SeedGrowth.Proofs.Program
import SeedGrowth.Proofs.Registry.Names

/-!
# The history of a registry

Whatever a registry has been asked for, its keys are pairwise different, and their flags
are their places in the order in which they are listed. A key that is asked for gets the
next flag if there is one left, and keeps it. Nothing else changes a registry, and a
request that fails does not either.
-/
namespace SeedGrowth.Registry

variable {r r' : Registry}

/-- What a registry answers to a name, and the registry that it is then. -/
inductive Answers (r : Registry) (name : Value) : Except Fault (Nat × Registry) → Prop where
  | refused : name.hashable = false → r.Answers name (.error (.unhashable .list))
  | known {flag : Nat} : name.hashable = true → r.find? name = some flag →
      r.Answers name (.ok (flag, r))
  | added : name.hashable = true → r.find? name = none → r.size < r.capacity.size →
      r.Answers name (.ok (r.size, { r with names := r.names ++ [name] }))
  | full : name.hashable = true → r.find? name = none → r.capacity.size ≤ r.size →
      r.Answers name (.error (.registryFull r.capacity))

theorem get_answers (r : Registry) (name : Value) : r.Answers name (r.get name) := by
  unfold get
  by_cases hname : name.hashable = true
  · rw [if_pos hname]
    cases hfind : r.find? name with
    | some flag => exact .known hname hfind
    | none =>
      by_cases hlt : r.size < r.capacity.size
      · simpa only [if_pos hlt] using Answers.added hname hfind hlt
      · simpa only [if_neg hlt] using Answers.full hname hfind (Nat.le_of_not_lt hlt)
  · rw [if_neg hname]
    exact .refused (Bool.eq_false_of_not_eq_true hname)

theorem find?_eq_none {name : Value} :
    r.find? name = none ↔ ∀ key ∈ r.names, name.alike key = false := by
  rw [find?, List.findIdx?_eq_none_iff]

theorem get_of_added {name : Value} (hn : name.hashable = true) (hf : r.find? name = none)
    (hlt : r.size < r.capacity.size) :
    r.get name = .ok (r.size, { r with names := r.names ++ [name] }) := by
  simp [get, hn, hf, hlt]

theorem get_of_full {name : Value} (hn : name.hashable = true) (hf : r.find? name = none)
    (hle : r.capacity.size ≤ r.size) : r.get name = .error (.registryFull r.capacity) := by
  simp [get, hn, hf, Nat.not_lt.2 hle]

theorem Grown.trans {r'' : Registry} (h : r.Grown r') (h' : r'.Grown r'') : r.Grown r'' :=
  ⟨h'.capacity.trans h.capacity, h'.verbose.trans h.verbose, h.names.trans h'.names⟩

/-- What can be asked of a registry. -/
inductive Use where
  | get (key : Value)
  | contains (key : Value)
  /-- How many keys there are. -/
  | count
  /-- The keys in their order. -/
  | list
  /-- Flags for the keys, none of them set. -/
  | flags

/-- A key that is asked for is recognised when it is seen again. -/
def Use.recognised : Use → Bool
  | .get key => key.alike key
  | _ => true

/-- What a registry replies. -/
inductive Reply where
  | flag (result : Except Fault Nat)
  | contained (result : Except Fault Bool)
  | counted (n : Nat)
  | listed (keys : List Value)
  | flags (result : Except Fault (Flags Carried))

/-- What the registry replies, and the registry that it is then. -/
def perform (r : Registry) : Use → Reply × Registry
  | .get key =>
    match r.get key with
    | .ok (flag, next) => (.flag (.ok flag), next)
    | .error fault => (.flag (.error fault), r)
  | .contains key => (.contained (r.contains key), r)
  | .count => (.counted r.size, r)
  | .list => (.listed r.names, r)
  | .flags => (.flags (Flags.allocate r.capacity .null), r)

/-- The registry after it has been asked for all this. -/
def after (r : Registry) : List Use → Registry
  | [] => r
  | use :: rest => (r.perform use).2.after rest

/-- The keys can be told apart, and there are not too many of them. -/
structure Orderly (r : Registry) : Prop where
  hashable : ∀ key ∈ r.names, key.hashable = true
  recognised : ∀ key ∈ r.names, key.alike key = true
  apart : r.names.Pairwise fun key key' => key.alike key' = false
  size_le : r.size ≤ r.capacity.size

/-! ### One step -/

theorem perform_get_ok {key : Value} {flag : Nat} (h : r.get key = .ok (flag, r')) :
    r.perform (.get key) = (.flag (.ok flag), r') := by
  simp only [perform, h]

theorem perform_get_error {key : Value} {fault : Fault} (h : r.get key = .error fault) :
    r.perform (.get key) = (.flag (.error fault), r) := by
  simp only [perform, h]

theorem orderly_empty (capacity : Capacity) (verbose : Bool) :
    (empty capacity verbose).Orderly where
  hashable := by simp [empty]
  recognised := by simp [empty]
  apart := by simp [empty]
  size_le := by simp

/-- A new key fits in behind the others. -/
theorem Orderly.added (h : r.Orderly) {name : Value} (hn : name.hashable = true)
    (ha : name.alike name = true) (hf : r.find? name = none) (hlt : r.size < r.capacity.size) :
    Orderly { r with names := r.names ++ [name] } where
  hashable := by
    intro key hkey
    rcases List.mem_append.1 hkey with hkey | hkey
    · exact h.hashable key hkey
    · rwa [List.mem_singleton.1 hkey]
  recognised := by
    intro key hkey
    rcases List.mem_append.1 hkey with hkey | hkey
    · exact h.recognised key hkey
    · rwa [List.mem_singleton.1 hkey]
  apart := by
    refine List.pairwise_append.2
      ⟨h.apart, List.pairwise_singleton .., fun key hkey key' hkey' => ?_⟩
    rw [List.mem_singleton.1 hkey']
    have hne := find?_eq_none.1 hf key hkey
    by_contra halike
    rw [Value.alike_symm (Bool.eq_true_of_not_eq_false halike)] at hne
    cases hne
  size_le := by
    have hsize : (r.names ++ [name]).length = r.size + 1 := by simp [size]
    change (r.names ++ [name]).length ≤ r.capacity.size
    omega

/-- Whatever is asked for, keys that can be told apart stay so, and none is lost. -/
theorem Orderly.perform (h : r.Orderly) {use : Use} (hu : use.recognised = true) :
    (r.perform use).2.Orderly ∧ r.Grown (r.perform use).2 := by
  cases use with
  | get key =>
    have hanswers := r.get_answers key
    cases hget : r.get key with
    | error fault =>
      rw [perform_get_error hget]
      exact ⟨h, .refl r⟩
    | ok answer =>
      obtain ⟨flag, next⟩ := answer
      rw [perform_get_ok hget]
      rw [hget] at hanswers
      cases hanswers with
      | known _ _ => exact ⟨h, .refl r⟩
      | added hn hf hlt => exact ⟨h.added hn hu hf hlt, rfl, rfl, List.prefix_append ..⟩
  | contains _ | count | list | flags => exact ⟨h, .refl r⟩

/-- A key has its place as its flag. -/
theorem Orderly.find?_eq (h : r.Orderly) {key key' : Value} {i : Nat}
    (hi : r.names[i]? = some key') (ha : key.alike key' = true) : r.find? key = some i := by
  obtain ⟨hlt, rfl⟩ := List.getElem?_eq_some_iff.1 hi
  refine List.findIdx?_eq_some_iff_getElem.2 ⟨hlt, ha, fun j hj halike => ?_⟩
  -- A key before it that is alike would be alike to it.
  have hapart := List.pairwise_iff_getElem.1 h.apart j i (hj.trans hlt) hlt hj
  rw [Value.alike_trans (Value.alike_symm halike) ha] at hapart
  cases hapart

/-! ### All steps -/

/-- Keys that can be told apart stay so all the time, and keep their flags. -/
theorem Orderly.after (h : r.Orderly) {uses : List Use} (hu : ∀ use ∈ uses, use.recognised = true) :
    (r.after uses).Orderly ∧ r.Grown (r.after uses) := by
  induction uses generalizing r with
  | nil => exact ⟨h, .refl r⟩
  | cons use rest ih =>
    obtain ⟨horderly, hgrown⟩ := h.perform (hu use (by simp))
    obtain ⟨hafter, hrest⟩ := ih horderly fun use' huse' => hu use' (List.mem_cons_of_mem _ huse')
    exact ⟨hafter, hgrown.trans hrest⟩

/-- What the replies of a registry for so many flags say about its keys. -/
structure Keeps (r : Registry) (capacity : Capacity) (keys : List Value) : Prop where
  listed : r.perform .list = (.listed keys, r)
  counted : r.perform .count = (.counted keys.length, r)
  length_le : keys.length ≤ capacity.size
  apart : keys.Pairwise fun key key' => key.alike key' = false
  contained : ∀ key, key.hashable = true →
    r.perform (.contains key) = (.contained (.ok (keys.any key.alike)), r)
  /-- The keys have the flags from zero upwards, one each. -/
  placed : ∀ (i : Nat) (hi : i < keys.length) (key : Value), key.hashable = true →
    key.alike keys[i] = true → r.perform (.get key) = (.flag (.ok i), r)
  /-- Every listed key can be asked for. -/
  askable : ∀ key ∈ keys, key.hashable = true ∧ key.alike key = true
  /-- A new key gets the next flag, if there is one. -/
  added : ∀ key, key.hashable = true → keys.any key.alike = false →
    ((∃ flag next, r.perform (.get key) = (.flag (.ok flag), next)) ↔ keys.length < capacity.size) ∧
    ∀ flag next, r.perform (.get key) = (.flag (.ok flag), next) →
      flag = keys.length ∧ (next.perform .list).1 = .listed (keys ++ [key])
  failed : ∀ key fault next, r.perform (.get key) = (.flag (.error fault), next) → next = r

theorem any_alike (r : Registry) (key : Value) :
    r.names.any key.alike = (r.find? key).isSome := by
  rw [find?, List.findIdx?_isSome]

/-- Keys that can be told apart are told so. -/
theorem Orderly.keeps (h : r.Orderly) : r.Keeps r.capacity r.names where
  listed := rfl
  counted := rfl
  length_le := h.size_le
  apart := h.apart
  contained key hkey := by
    rw [any_alike]
    simp only [Registry.perform, Registry.contains, if_pos hkey]
  placed i hi key hkey ha :=
    perform_get_ok (get_of_find? hkey (h.find?_eq (List.getElem?_eq_getElem hi) ha))
  askable key hkey := ⟨h.hashable key hkey, h.recognised key hkey⟩
  added key hkey hnew := by
    have hf : r.find? key = none := by
      rw [any_alike] at hnew
      exact Option.isNone_iff_eq_none.1 (by simpa using hnew)
    by_cases hlt : r.size < r.capacity.size
    · have hget := perform_get_ok (get_of_added hkey hf hlt)
      refine ⟨⟨fun _ => hlt, fun _ => ⟨_, _, hget⟩⟩, fun flag next hnext => ?_⟩
      rw [hget] at hnext
      cases hnext
      exact ⟨rfl, rfl⟩
    · have hget := perform_get_error (get_of_full hkey hf (Nat.le_of_not_lt hlt))
      refine ⟨⟨fun ⟨flag, next, hnext⟩ => ?_, fun hlt' => absurd hlt' hlt⟩,
        fun flag next hnext => ?_⟩
      · rw [hget] at hnext
        cases hnext
      · rw [hget] at hnext
        cases hnext
  failed key fault next hnext := by
    cases hget : r.get key with
    | ok answer =>
      obtain ⟨flag, other⟩ := answer
      rw [perform_get_ok hget] at hnext
      cases hnext
    | error other =>
      rw [perform_get_error hget] at hnext
      cases hnext
      rfl

/-- A flag that was given is given again. -/
theorem Orderly.get_after (h : r.Orderly) {key : Value} (ha : key.alike key = true) {flag : Nat}
    (hget : r.perform (.get key) = (.flag (.ok flag), r')) {future : List Use}
    (hf : ∀ use ∈ future, use.recognised = true) :
    (r'.after future).perform (.get key) = (.flag (.ok flag), r'.after future) := by
  obtain ⟨horderly, -⟩ := h.perform (show (Use.get key).recognised = true from ha)
  rw [hget] at horderly
  obtain ⟨hafter, hgrown⟩ := horderly.after hf
  cases hanswer : r.get key with
  | error fault =>
    rw [perform_get_error hanswer] at hget
    cases hget
  | ok answer =>
    obtain ⟨flag', next⟩ := answer
    rw [perform_get_ok hanswer] at hget
    cases hget
    have hkey : key.hashable = true := by
      by_contra hkey
      rw [get_of_not_hashable (Bool.eq_false_of_not_eq_true hkey)] at hanswer
      cases hanswer
    exact perform_get_ok (get_of_find? hkey (hgrown.find? (get_eq_ok ha hanswer).2))

/-- After any requests, including such as fail, the keys of a registry are told to be pairwise
different, with the flags from zero upwards in the order in which they are listed; a new key
gets the next flag as long as there is one; and whatever flag a key is given, it has for good. -/
theorem keeps_after {capacity : Option Value} {verbose : Bool} {start : Registry}
    (hstart : create capacity verbose = .ok start) {past : List Use}
    (hpast : ∀ use ∈ past, use.recognised = true) :
    (∃ keys, (start.after past).Keeps start.capacity keys) ∧
      ∀ key flag next, key.alike key = true →
        (start.after past).perform (.get key) = (.flag (.ok flag), next) →
        ∀ future : List Use, (∀ use ∈ future, use.recognised = true) →
          (next.after future).perform (.get key) = (.flag (.ok flag), next.after future) := by
  obtain ⟨c, -, hempty⟩ := bind_eq_ok.1 hstart
  cases hempty
  obtain ⟨horderly, hgrown⟩ := (orderly_empty c verbose).after hpast
  refine ⟨⟨((empty c verbose).after past).names, ?_⟩,
    fun key flag next ha hget future hf => horderly.get_after ha hget hf⟩
  rw [← hgrown.capacity]
  exact horderly.keeps

/-- A whole number, the truth value that it equals, a row that cannot be a key, and a row that
can. -/
def mixedUses : List Use :=
  [.get (.int 1), .get (.truth true), .get (.list []), .contains (.list []), .list,
    .get (.tuple [.truth true]), .get (.tuple [.int 1])]

/-- Keys that are equal have one flag between them. -/
theorem keeps_after_mixedUses :
    create none false = .ok default ∧ (∀ use ∈ mixedUses, use.recognised = true) ∧
      ∃ keys, ((default : Registry).after mixedUses).Keeps .standard keys ∧ keys.length = 2 := by
  have hstart : create none false = .ok default := rfl
  have hpast : ∀ use ∈ mixedUses, use.recognised = true := by decide +kernel
  have hlength : ((default : Registry).after mixedUses).names.length = 2 := by decide +kernel
  obtain ⟨⟨keys, hkeys⟩, -⟩ := keeps_after hstart hpast
  refine ⟨hstart, hpast, keys, hkeys, ?_⟩
  have hlisted := hkeys.counted
  simp only [perform, size, hlength, Prod.mk.injEq, Reply.counted.injEq, and_true] at hlisted
  exact hlisted.symm

end SeedGrowth.Registry
