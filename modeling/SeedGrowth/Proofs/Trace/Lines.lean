import SeedGrowth.CommandLine.Command
import SeedGrowth.Proofs.Verbosity.Silence

/-!
# What is printed of a trace

An event is printed as a text. It begins with two blanks for every level and goes on with what its
kind is: the name of the rule and the text ahead where a call begins, the number and the position
of an evaluation, and the beginning of the text of a value. Such texts may quote line feeds, so
that they are several lines, but they are printed one after the other, each ended by a line feed.
Events without a text are not traced.
-/
namespace SeedGrowth

variable {ρ : Type} {σ σ' σ'' : Session}

open CommandLine.Job (traceText)

/-! ### Texts of events -/

namespace TraceEvent

/-- The text is what is shown of a value, or of there being none. -/
def Excerpt (value : Option Value) (text : String) : Prop :=
  ∃ whole, (value.getD .null).plain = .ok whole ∧ text = Text.truncate 200 whole

/-- What is shown of the text ahead. -/
def lookahead (ahead : List Char) : String :=
  Text.truncate 30 (Text.quoteString (String.ofList ahead))

/-- What an event is printed as, behind the blanks. -/
inductive Shows : TraceEvent → String → Prop
  | entered {level : Nat} {name : Value} {ahead : List Char} {rule : String}
      (hname : name.plain = .ok rule) :
    Shows (.entered level name ahead) (rule ++ " ... (looking at " ++ lookahead ahead ++ ")")
  | seeded {level : Nat} {name : Value} {best : Option Value} {rule value : String}
      (hname : name.plain = .ok rule) (hbest : Excerpt best value) :
    Shows (.seeded level name best) (rule ++ " -> " ++ value ++ " [seed]")
  | evaluated {level position round : Nat} {name : Value} {result : Option Value}
      {rule value : String} (hname : name.plain = .ok rule) (hresult : Excerpt result value) :
    Shows (.evaluated level name position round result)
      ("Recursive " ++ rule ++ " at " ++ toString position ++ " depth " ++ toString round ++ ": " ++
        value)
  | failed {level : Nat} {best : Option Value} {value : String} (hbest : Excerpt best value) :
    Shows (.failed level best) ("Fail with " ++ value)
  | bailed {level : Nat} {best : Option Value} {value : String} (hbest : Excerpt best value) :
    Shows (.bailed level best) ("Bailing with " ++ value)
  | left {level : Nat} {name : Value} {result : Option Value} {rule value : String}
      (hname : name.plain = .ok rule) (hresult : Excerpt result value) :
    Shows (.left level name result) ("... " ++ rule ++ " -> " ++ value)

end TraceEvent

namespace Session

/-- What was traced from the one session to the other has texts. -/
def Writes (σ σ' : Session) : Prop :=
  ∃ events, σ'.trace.toList = σ.trace.toList ++ events ∧
    ∀ event ∈ events, ∃ text, event.text = .ok text

namespace Writes

theorem of_trace (h : σ'.trace = σ.trace) : σ.Writes σ' := ⟨[], by simp [h], by simp⟩

theorem trans (h : σ.Writes σ') (h' : σ'.Writes σ'') : σ.Writes σ'' := by
  obtain ⟨events, htrace, htexts⟩ := h
  obtain ⟨events', htrace', htexts'⟩ := h'
  refine ⟨events ++ events', ?_, fun event hevent => ?_⟩
  · rw [htrace', htrace, List.append_assoc]
  · rcases List.mem_append.1 hevent with hevent | hevent
    · exact htexts event hevent
    · exact htexts' event hevent

theorem isLaw : IsLaw Writes where
  untouched _ _ ht _ := of_trace ht
  trans := trans

/-- An event without a text is not traced. -/
theorem trace (verbose : Bool) (event : TraceEvent) :
    (Eval.trace verbose event).Obeys Writes := by
  intro σ
  cases verbose with
  | false => exact .of_trace rfl
  | true =>
    cases htext : event.text with
    | ok text =>
      have hrun : (Eval.trace true event σ).2 = { σ with trace := σ.trace.push event } := by
        simp only [Eval.trace, htext]
        rfl
      rw [hrun]
      exact ⟨[event], by simp, by simp [htext]⟩
    | error fault =>
      have hrun : (Eval.trace true event σ).2 = σ := by
        simp only [Eval.trace, htext]
        rfl
      rw [hrun]
      exact .of_trace rfl

end Writes

end Session

end SeedGrowth
