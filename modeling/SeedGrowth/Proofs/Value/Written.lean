import SeedGrowth.Grammar.Trace
import SeedGrowth.Proofs.Program

/-!
# What cannot be written

The only values that cannot be written are those with a whole number in them that is
beyond the limit on digits, so nothing else keeps an event out of a trace.
-/
namespace SeedGrowth

/-- Only numbers that are too long cannot be written. -/
theorem integerText_error {n : Int} {fault : Fault} (h : integerText n = .error fault) :
    fault = .unwritableInteger := by
  unfold integerText at h
  generalize Nat.pow 10 Decimal.digitLimit = limit at h
  split at h <;> cases h
  rfl

theorem integerText_eq_ok {n : Int} (h : (Value.int n).writable = true) :
    integerText n = .ok (toString n) := by
  rw [Value.writable, decide_eq_true_eq] at h
  rw [integerText, if_pos h]

mutual

theorem Value.written_error (v : Value) {fault : Fault} (h : v.written = .error fault) :
    fault = .unwritableInteger := by
  cases v with
  | null | truth | real | nan | text =>
    rw [Value.written] at h
    cases h
  | int n =>
    rw [Value.written] at h
    exact integerText_error h
  | list items =>
    rw [Value.written] at h
    obtain h | ⟨_, _, h⟩ := bind_eq_error h
    · exact Value.writtenAll_error items h
    · cases h
  | tuple items =>
    match items with
    | [] =>
      rw [Value.written] at h
      · cases h
      · simp
    | [v] =>
      rw [Value.written] at h
      obtain h | ⟨_, _, h⟩ := bind_eq_error h
      · exact Value.written_error v h
      · cases h
    | v :: w :: rest =>
      rw [Value.written] at h
      · obtain h | ⟨_, _, h⟩ := bind_eq_error h
        · exact Value.writtenAll_error (v :: w :: rest) h
        · cases h
      · simp

theorem Value.writtenAll_error (items : List Value) {fault : Fault}
    (h : Value.writtenAll items = .error fault) : fault = .unwritableInteger := by
  cases items with
  | nil => cases h
  | cons v rest =>
    rw [Value.writtenAll] at h
    obtain h | ⟨_, _, h⟩ := bind_eq_error h
    · exact Value.written_error v h
    · obtain h | ⟨_, _, h⟩ := bind_eq_error h
      · exact Value.writtenAll_error rest h
      · cases h

end

theorem Value.plain_error {v : Value} {fault : Fault} (h : v.plain = .error fault) :
    fault = .unwritableInteger := by
  unfold Value.plain at h
  split at h
  · cases h
  · exact Value.written_error _ h

mutual

/-- A value without numbers that are too long is written. -/
theorem Value.exists_written (v : Value) (h : v.writable = true) :
    ∃ text, v.written = .ok text := by
  cases v with
  | null | truth | real | nan | text => exact ⟨_, rfl⟩
  | int n =>
    exact ⟨toString n, by rw [Value.written, integerText_eq_ok h]⟩
  | list items =>
    obtain ⟨texts, htexts⟩ := Value.exists_writtenAll items h
    exact ⟨_, by rw [Value.written, htexts, ok_bind]; rfl⟩
  | tuple items =>
    match items with
    | [] => exact ⟨"(" ++ ", ".intercalate [] ++ ")", rfl⟩
    | [v] =>
      obtain ⟨text, htext⟩ := Value.exists_written v (Bool.and_eq_true_iff.1 h).1
      exact ⟨_, by rw [Value.written, htext, ok_bind]; rfl⟩
    | v :: w :: rest =>
      obtain ⟨texts, htexts⟩ := Value.exists_writtenAll (v :: w :: rest) h
      refine ⟨"(" ++ ", ".intercalate texts ++ ")", ?_⟩
      rw [Value.written, htexts, ok_bind]
      · rfl
      · simp

theorem Value.exists_writtenAll (items : List Value) (h : Value.writableAll items = true) :
    ∃ texts, Value.writtenAll items = .ok texts := by
  cases items with
  | nil => exact ⟨[], rfl⟩
  | cons v rest =>
    obtain ⟨hv, hrest⟩ := Bool.and_eq_true_iff.1 h
    obtain ⟨text, htext⟩ := Value.exists_written v hv
    obtain ⟨texts, htexts⟩ := Value.exists_writtenAll rest hrest
    exact ⟨text :: texts, by rw [Value.writtenAll, htext, ok_bind, htexts, ok_bind]; rfl⟩

end

theorem Value.exists_plain {v : Value} (h : v.writable = true) : ∃ text, v.plain = .ok text := by
  unfold Value.plain
  split
  · exact ⟨_, rfl⟩
  · exact Value.exists_written v h

namespace TraceEvent

/-- The values that an event quotes. -/
def values : TraceEvent → List Value
  | .entered _ name _ => [name]
  | .seeded _ name best => name :: best.toList
  | .evaluated _ name _ _ result => name :: result.toList
  | .failed _ best => best.toList
  | .bailed _ best => best.toList
  | .left _ name result => name :: result.toList

theorem exists_excerpt {value : Option Value} (h : ∀ x ∈ value.toList, x.writable = true) :
    ∃ text, excerpt value = .ok text := by
  have hvalue : (value.getD .null).writable = true := by
    cases value with
    | none => rfl
    | some x => exact h x (by simp)
  obtain ⟨text, htext⟩ := Value.exists_plain hvalue
  exact ⟨_, by rw [excerpt, htext, ok_bind]; rfl⟩

/-- An event is reported if all values that it quotes can be written. -/
theorem exists_text {event : TraceEvent} (h : ∀ x ∈ event.values, x.writable = true) :
    ∃ text, event.text = .ok text := by
  cases event with
  | entered level name ahead =>
    obtain ⟨text, hname⟩ := Value.exists_plain (h name (by simp [values]))
    exact ⟨_, by simp only [TraceEvent.text, hname]; rfl⟩
  | seeded level name best =>
    obtain ⟨text, hname⟩ := Value.exists_plain (h name (by simp [values]))
    obtain ⟨text', hbest⟩ := exists_excerpt fun x hx => h x (List.mem_cons_of_mem name hx)
    exact ⟨_, by simp only [TraceEvent.text, hname, hbest]; rfl⟩
  | evaluated level name position round result =>
    obtain ⟨text, hname⟩ := Value.exists_plain (h name (by simp [values]))
    obtain ⟨text', hresult⟩ := exists_excerpt fun x hx => h x (List.mem_cons_of_mem name hx)
    exact ⟨_, by simp only [TraceEvent.text, hname, hresult]; rfl⟩
  | failed level best | bailed level best =>
    obtain ⟨text, hbest⟩ := exists_excerpt h
    exact ⟨_, by simp only [TraceEvent.text, hbest]; rfl⟩
  | left level name result =>
    obtain ⟨text, hname⟩ := Value.exists_plain (h name (by simp [values]))
    obtain ⟨text', hresult⟩ := exists_excerpt fun x hx => h x (List.mem_cons_of_mem name hx)
    exact ⟨_, by simp only [TraceEvent.text, hname, hresult]; rfl⟩

/-- What keeps an event out of a trace is a value that it quotes. -/
theorem exists_of_text_error {event : TraceEvent} {fault : Fault} (h : event.text = .error fault) :
    ∃ x ∈ event.values, x.writable = false := by
  cases hall : event.values.all Value.writable with
  | true =>
    obtain ⟨text, htext⟩ := exists_text (List.all_eq_true.1 hall)
    rw [htext] at h
    cases h
  | false =>
    obtain ⟨x, hx, hnot⟩ := List.all_eq_false.1 hall
    exact ⟨x, hx, Bool.eq_false_iff.2 hnot⟩

theorem excerpt_error {value : Option Value} {fault : Fault} (h : excerpt value = .error fault) :
    fault = .unwritableInteger := by
  obtain h | ⟨_, _, h⟩ := bind_eq_error h
  · exact Value.plain_error h
  · cases h

theorem text_error {event : TraceEvent} {fault : Fault} (h : event.text = .error fault) :
    fault = .unwritableInteger := by
  have inner : ∀ {x : Except Fault String} {indent : String},
      (indent ++ ·) <$> x = .error fault → x = .error fault := by
    intro x indent h
    cases x with
    | ok text => cases h
    | error f => exact h
  cases event with
  | entered level name ahead =>
    obtain h | ⟨_, _, h⟩ := bind_eq_error (inner h)
    · exact Value.plain_error h
    · cases h
  | seeded level name best =>
    obtain h | ⟨_, _, h⟩ := bind_eq_error (inner h)
    · exact Value.plain_error h
    · obtain h | ⟨_, _, h⟩ := bind_eq_error h
      · exact excerpt_error h
      · cases h
  | evaluated level name position round result =>
    obtain h | ⟨_, _, h⟩ := bind_eq_error (inner h)
    · exact Value.plain_error h
    · obtain h | ⟨_, _, h⟩ := bind_eq_error h
      · exact excerpt_error h
      · cases h
  | failed level best | bailed level best =>
    obtain h | ⟨_, _, h⟩ := bind_eq_error (inner h)
    · exact excerpt_error h
    · cases h
  | left level name result =>
    obtain h | ⟨_, _, h⟩ := bind_eq_error (inner h)
    · exact Value.plain_error h
    · obtain h | ⟨_, _, h⟩ := bind_eq_error h
      · exact excerpt_error h
      · cases h

end TraceEvent

end SeedGrowth
