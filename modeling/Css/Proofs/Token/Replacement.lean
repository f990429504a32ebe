import Css.Proofs.Text.Lossy
import Css.Proofs.Token.Plain
import Css.Proofs.Token.Scanned

/-!
# Runs of stray bytes

A stray byte becomes U+FFFD, which has three bytes and belongs to the names. So stray bytes that are
not too many can become a name that goes on past the places that words keep, and what stands behind
it starts at zero again.
-/

namespace Css

theorem Text.byteLength_replacements (n : Nat) :
    byteLength (List.replicate n '\ufffd') = 3 * n := by
  rw [byteLength_replicate, Nat.mul_comm]
  rfl

theorem Text.isIdentifier_replacements {n : Nat} (h : 0 < n) :
    isIdentifier (List.replicate n '\ufffd') = true := by
  obtain ⟨n, rfl⟩ := Nat.exists_eq_succ_of_ne_zero (Nat.ne_of_gt h)
  refine isIdentifier_iff.2 ⟨startsName_of_isNameStart (by decide) _, fun c hmem => ?_⟩
  rw [List.eq_of_mem_replicate hmem]
  decide

/-- A run of U+FFFD is a name, and what stands behind it starts three bytes further on for each. -/
theorem Reading.all_replacements (lineComments : Bool) (offset : Nat) {n : Nat} (h : 0 < n)
    {follow : Text} (hfollow : EndsName follow) :
    all lineComments offset (List.replicate n '\ufffd' ++ follow) =
      ⟨⟨.ident (List.replicate n '\ufffd'), ⟨.ofPlace offset, .ofPlace (offset + 3 * n)⟩,
        List.replicate n '\ufffd'⟩, none⟩ :: all lineComments (offset + 3 * n) follow := by
  have hscanned : Lexeme.AreScanned lineComments
      [⟨.ident (List.replicate n '\ufffd'), .point 0, List.replicate n '\ufffd'⟩] follow :=
    ⟨.of_spells (Text.spells_of_isIdentifier (Text.isIdentifier_replacements h) hfollow), trivial⟩
  have hall := all_append hscanned offset
  rw [Lexeme.text_cons, Lexeme.text_nil, List.append_nil, Text.byteLength_replacements] at hall
  rw [hall, Lexeme.placed, Lexeme.placed, Text.byteLength_replacements]
  rfl

end Css
