import KeyLint.Proofs.Script.Grammar.Statements
import KeyLint.Script.Parser

/-!
# The layout of a script

The rules lay out what they read if the rules for what is inside do, however deeply they are nested.
So the nodes of every script that can be read stand one after the other from its beginning on.
-/

namespace KeyLint.Script

open Reading
open Node (Laid)

theorem Grammar.layOut_rules {self : Rules} (h : self.LayOut) : (rules self).LayOut
  | .type => reads_typeRule h
  | .binding => reads_bindingRule h
  | .statement => reads_statementRule h
  | .body => reads_bodyRule h
  | .item => reads_itemRule h
  | .unary => reads_unaryRule h
  | .assignment noIn beforeColon => reads_assignmentRule h noIn beforeColon
  | .expression noIn => reads_expressionRule h noIn

theorem Grammar.layOut_nested (fuel : Nat) : (nested fuel).LayOut := by
  induction fuel with
  | zero => exact fun _ _ _ _ => trivial
  | succ fuel ih => exact layOut_rules ih

theorem Grammar.reads_module {self : Rules} (h : self.LayOut) :
    Reads false (Grammar.module self) fun nodes => nodes := by
  have hitem : Reads false (do
      if (← Reading.token) = .endOfText then return none
      return some (← self .item)) (fun node? => node?.elim [] fun node => [node]) := by
    intro lo
    refine .branch looks_token (.done rfl fun _ => id) ?_
    exact .keep (h .item) fun node => .done rfl fun _ => id
  intro lo
  refine .keep hitem.many fun nodes => .look looks_token fun _ => .ifNot (fun _ => .fail) ?_
  exact .done rfl (by simp)

theorem Grammar.laid_module {depth fuel : Nat} {place : Place} {nodes : List Node} {c : Cursor}
    (h : Grammar.module (nested depth) (Cursor.after fuel place) = .ok (nodes, c)) :
    Laid 0 c.here.offset nodes := by
  have hstart : At 0 false [] (Cursor.after fuel place) :=
    ⟨Cursor.isSound_after .., .nil (Nat.zero_le _), nofun⟩
  have hends := reads_module (layOut_nested depth) 0 (Cursor.after fuel place) hstart
  rw [h] at hends
  exact hends.laid

/-- The nodes of a script are laid out like its text. -/
theorem laid_parse {source : Text} {nodes : List Node} (h : parse source = .ok nodes) :
    ∃ hi, Laid 0 hi nodes := by
  unfold parse at h
  dsimp only at h
  split at h
  · next hmodule =>
      cases h
      exact ⟨_, Grammar.laid_module hmodule⟩
  · cases h

end KeyLint.Script
