import Css.Proofs.Token.Faults
import Css.Proofs.Token.Scanning

/-!
# Tokens that never end

A token that lacks its end reaches up to the end of the text (`Token.openTakes_scan`). So a string
that never ends is the last token of the text, and the only one of its kind.
-/

namespace Css

namespace Token

/-- Whether a scan that found a token without an end took `length` characters. -/
def OpenTakes (length : Nat) (scan : Scan) : Prop :=
  scan.problem.isSome = true → scan.token.isBad = false → scan.token ≠ delim '\\' →
    scan.length = length

theorem OpenTakes.of_sound {length : Nat} {scan : Scan} (h : scan.problem = none) :
    OpenTakes length scan := by
  intro hproblem
  rw [h] at hproblem
  contradiction

theorem openTakes_scanComment (text : Text) : OpenTakes (text.length + 2) (scanComment text) := by
  have hle := commentLength_le text
  unfold scanComment
  simp only
  split
  · rename_i hend
    have := List.drop_eq_nil_iff.1 (List.isEmpty_iff.1 hend)
    intro _ _ _
    simp only
    omega
  · exact .of_sound rfl

theorem openTakes_scanUrl (passed : Nat) (text : Text) :
    OpenTakes (passed + text.length) (scanUrl passed text) := by
  have hle := chainLength_le urlUnit_le text
  unfold scanUrl
  simp only
  split
  · rename_i hend
    have := List.drop_eq_nil_iff.1 hend
    intro _ _ _
    simp only
    omega
  · split
    · exact .of_sound rfl
    · exact .of_sound rfl
    · exact fun _ hbad => absurd hbad (Bool.noConfusion ·)

theorem openTakes_scanIdentLike (text : Text) : OpenTakes text.length (scanIdentLike text) := by
  unfold scanIdentLike
  simp only
  split
  · rename_i inner hdrop
    split
    · split
      · exact .of_sound rfl
      · have hlength := congrArg List.length hdrop
        have hblanks := blanksLength_le inner
        have htakes := openTakes_scanUrl (nameLength text + 1 + blanksLength inner)
          (inner.drop (blanksLength inner))
        simp only [List.length_drop, List.length_cons] at hlength htakes
        rwa [show text.length = nameLength text + 1 + blanksLength inner +
          (inner.length - blanksLength inner) by omega]
    · exact .of_sound rfl
  · exact .of_sound rfl

theorem openTakes_scanString (quote : Quote) (text : Text) :
    OpenTakes (text.length + 1) (scanString quote text) := by
  have hle := chainLength_le (stringUnit_le quote) text
  unfold scanString
  simp only
  split
  · rename_i hend
    have := List.drop_eq_nil_iff.1 hend
    intro _ _ _
    simp only
    omega
  · split
    · exact .of_sound rfl
    · exact fun _ hbad => absurd hbad (Bool.noConfusion ·)

theorem openTakes_scan (lineComments : Bool) (c : Char) (cs : Text) :
    OpenTakes (cs.length + 1) (scan lineComments c cs) := by
  unfold scan
  simp only
  split
  · exact .of_sound rfl
  split
  · exact .of_sound rfl
  split
  · exact .of_sound (problem_scanNumeric _)
  split
  · split
    · exact openTakes_scanComment _
    · split <;> exact .of_sound rfl
    · exact .of_sound rfl
  · exact openTakes_scanString _ _
  · exact openTakes_scanString _ _
  · split <;> exact .of_sound rfl
  · split <;> exact .of_sound rfl
  · split <;> exact .of_sound rfl
  · split
    · exact .of_sound rfl
    · split
      · exact openTakes_scanIdentLike _
      · exact .of_sound rfl
  · split
    · exact openTakes_scanIdentLike _
    · exact fun _ _ hne => absurd rfl hne
  · split
    · exact openTakes_scanIdentLike _
    · exact .of_sound rfl

end Token

namespace Reading

def IsOpenString (reading : Reading) : Prop :=
  reading.problem = some (.lex .unterminatedString)

theorem IsOpenString.exists_string {reading : Reading} (h : reading.IsOpenString)
    (hreads : reading.lexeme.token.Reads reading.problem) :
    ∃ content quote, reading.lexeme.token = .string content quote := by
  rw [h] at hreads
  generalize reading.lexeme.token = token at hreads
  cases hreads with
  | openString => exact ⟨_, _, rfl⟩

/-- A string that never ends is the last token of its text, and the only one that never ends. -/
theorem exists_front_of_isOpenString {lineComments : Bool} {offset : Nat} {text : Text}
    {reading : Reading} (hmem : reading ∈ all lineComments offset text)
    (hopen : reading.IsOpenString) :
    ∃ front, all lineComments offset text = front ++ [reading] ∧
      ∀ other ∈ front, ¬other.IsOpenString := by
  fun_induction all lineComments offset text with
  | case1 => simp at hmem
  | case2 offset c cs head ih =>
    by_cases hhead : head.IsOpenString
    · obtain ⟨content, quote, hstring⟩ := hhead.exists_string (Token.reads_scan lineComments c cs)
      have hproblem : (Token.scan lineComments c cs).problem.isSome = true :=
        congrArg Option.isSome hhead
      have hend : (c :: cs).drop (Token.scan lineComments c cs).length = [] := by
        change (Token.scan lineComments c cs).token = _ at hstring
        rw [Token.openTakes_scan lineComments c cs hproblem (by rw [hstring]; rfl)
          (by rw [hstring]; exact Token.noConfusion)]
        exact List.drop_length
      rw [hend, all, List.mem_singleton] at hmem
      refine ⟨[], ?_, by simp⟩
      rw [hend, all, hmem]
      rfl
    · obtain rfl | hrest := List.mem_cons.1 hmem
      · exact absurd hopen hhead
      · obtain ⟨front, hfront, hothers⟩ := ih hrest
        refine ⟨head :: front, by rw [hfront]; rfl, fun other hother => ?_⟩
        obtain rfl | hother := List.mem_cons.1 hother
        · exact hhead
        · exact hothers other hother

theorem eq_of_isOpenString {lineComments : Bool} {offset : Nat} {text : Text}
    {left right : Reading} (hleft : left ∈ all lineComments offset text)
    (hright : right ∈ all lineComments offset text) (hopen : left.IsOpenString)
    (hopen' : right.IsOpenString) : left = right := by
  obtain ⟨front, hfront, hothers⟩ := exists_front_of_isOpenString hright hopen'
  rw [hfront, List.mem_append, List.mem_singleton] at hleft
  obtain hleft | hleft := hleft
  · exact absurd hopen (hothers left hleft)
  · exact hleft

end Reading

end Css
