import PirFrontend.Proofs.Words

/-!
Two runs that mend what is broken. A rule that breaks in the middle of a line leaves both runs
between two lines.
-/
namespace PirFrontend

open PirFrontend.Parser (Place Block)

/-- Mending reports the error and drops the rest of the line and what was begun there. -/
theorem Mended.run_resynchronize (e : ParseError) (s : Session) :
    (resynchronize e).run s = match (Build.mend e).run s.builder with
      | (.ok _, b) => (.ok (), ⟨s.tokens.skipLine.2, b.dropInstruction⟩)
      | (.error f, b) => (.error f, { s with builder := b }) := by
  have hlift (b : Builder) : (liftM (Build.malformed e.message) : Mended Unit).run ⟨s.tokens, b⟩ =
      match (Build.malformed e.message).run b with
      | (.ok a, b) => (.ok a, ⟨s.tokens, b⟩)
      | (.error f, b) => (.error f, ⟨s.tokens, b⟩) := by
    show Act.build (Build.malformed e.message) ⟨s.tokens, b⟩ = _
    unfold Act.build
    generalize (Build.malformed e.message).run b = r
    obtain ⟨f | a, b⟩ := r <;> rfl
  -- What is done once the line of the error is set, if it has one.
  have hbehind (b : Builder) : (do
        Build.malformed e.message
        modifyThe Session fun s => { s with tokens := s.tokens.skipLine.2 }
        Act.change Builder.dropInstruction : Mended Unit).run ⟨s.tokens, b⟩ =
      match (Build.malformed e.message).run b with
      | (.ok _, b) => (.ok (), ⟨s.tokens.skipLine.2, b.dropInstruction⟩)
      | (.error f, b) => (.error f, ⟨s.tokens, b⟩) := by
    rw [run_bind, hlift]
    generalize (Build.malformed e.message).run b = r
    obtain ⟨f | a, b⟩ := r <;> rfl
  unfold resynchronize Build.mend
  cases e.line? with
  | none => exact hbehind s.builder
  | some line => exact hbehind (s.builder.setLine line)

theorem Mended.run_attempt {α : Type} (rule : Parser α) (otherwise : α) (s : Session) :
    (attempt rule otherwise).run s = match rule.run s with
      | (.ok a, s') => (.ok a, s')
      | (.error (.fatal f), s') => (.error f, s')
      | (.error (.broken e), s') => match (Build.mend e).run s'.builder with
        | (.ok _, b) => (.ok otherwise, ⟨s'.tokens.skipLine.2, b.dropInstruction⟩)
        | (.error f, b) => (.error f, { s' with builder := b }) := by
  show attempt rule otherwise s = _
  unfold attempt
  generalize rule.run s = r
  obtain ⟨(e | f) | a, s'⟩ := r
  · show (do resynchronize e; pure otherwise : Mended α).run s' = _
    rw [run_bind, run_resynchronize]
    dsimp only
    generalize (Build.mend e).run s'.builder = r
    obtain ⟨f | a, b⟩ := r <;> rfl
  · rfl
  · rfl

namespace Pairing

variable {α : Type} {P : Pairing} [P.Lawful] {cr : Prop} {p p' : Place} {s t : Session}

theorem run_lift_mended (x : Mended α) (s : Session) :
    (liftM x : Parser α).run s = match x.run s with
      | (.ok a, s') => (.ok a, s')
      | (.error f, s') => (.error (.fatal f), s') := rfl

/-- Behind the rest of a line that is skipped on both sides, both are between lines. -/
theorem Mid.skipLine {ks : List TokenKind} (h : P.Mid p ks s t) :
    P.start s.tokens.skipLine.2.steps t.tokens.skipLine.2.steps := by
  rw [TokenStream.steps_skipLine, TokenStream.steps_skipLine]
  exact h.steps.afterLine fun h => (Readable.like h).kind

/-- A broken rule is mended on both sides. -/
theorem attempt_runs {x : Parser α} {otherwise : α} {Q : α → α → Session → Session → Prop}
    (h : P.Runs False p x x s t Q) :
    P.Runs cr p' (liftM (Mended.attempt x otherwise)) (liftM (Mended.attempt x otherwise)) s t
      fun a a' s' t' => Q a a' s' t' ∨ a = otherwise ∧ a' = otherwise ∧ P.Between p s' t' := by
  unfold Runs at *
  rw [run_lift_mended, run_lift_mended, Mended.run_attempt, Mended.run_attempt]
  revert h
  generalize x.run s = r
  generalize x.run t = r'
  intro h
  cases h with
  | ok hs ht hq => exact .ok hs ht (.inl hq)
  | crossed h => exact h.elim
  | stopped h => exact .stopped h
  | left h => exact .left h
  | right h => exact .right h
  -- Both runs are mended, and go on behind the line.
  | @broken e e' s' t' hs ht he hm =>
    have hmend := Lawful.mend he hm.rel
    dsimp only
    revert hmend
    generalize (Build.mend e).run s'.builder = r
    generalize (Build.mend e').run t'.builder = r'
    intro hmend
    cases hmend with
    | stopped h => exact .stopped h
    | left h => exact .left h
    | right h => exact .right h
    | ok hrel =>
      exact .ok (hs.trans s'.tokens.follows_skipLine) (ht.trans t'.tokens.follows_skipLine)
        (.inr ⟨rfl, rfl, Readable.passed (Lawful.drop hrel), hm.skipLine⟩)

end Pairing
end PirFrontend
