import Css.Proofs.Token.Tiles

/-!
# What is wrong with a token

Each fault belongs to one kind of token (`Token.reads_scan`): a string, comment or url that lacks
its end, what is left of a string or url that was cut short, and a lone backslash. The end of a text
is never read as one of its tokens.
-/

namespace Css

namespace Token

inductive Reads : Token → Option Problem → Prop
  | sound {token : Token} : token.isBad = false → token ≠ eof → Reads token none
  | openString {content : Text} {quote : Quote} :
    Reads (string content quote) (some (.lex .unterminatedString))
  | badString : Reads badString (some (.lex .badString))
  | openComment {content : Text} : Reads (comment content) (some (.lex .unterminatedComment))
  | badEscape : Reads (delim '\\') (some (.lex .badEscape))
  | openUrl {target : Text} : Reads (url target) (some (.unbalancedBlock ')'))
  | badUrl : Reads badUrl (some (.lex .badUrl))

theorem Reads.ne_eof {token : Token} {problem : Option Problem} (h : Reads token problem) :
    token ≠ eof := by
  cases h with
  | sound _ hne => exact hne
  | _ => exact Token.noConfusion

theorem Reads.isBad_eq_false {token : Token} (h : Reads token none) : token.isBad = false := by
  cases h with
  | sound hbad _ => exact hbad

/-! ### Scanning -/

theorem reads_scanNumeric (text : Text) :
    Reads (scanNumeric text).token (scanNumeric text).problem := by
  unfold scanNumeric
  simp only
  split
  · exact .sound rfl Token.noConfusion
  · split <;> exact .sound rfl Token.noConfusion

theorem reads_scanString (quote : Quote) (text : Text) :
    Reads (scanString quote text).token (scanString quote text).problem := by
  unfold scanString
  simp only
  split
  · exact .openString
  · split
    · exact .sound rfl Token.noConfusion
    · exact .badString

theorem reads_scanComment (text : Text) :
    Reads (scanComment text).token (scanComment text).problem := by
  unfold scanComment
  simp only
  split
  · exact .openComment
  · exact .sound rfl Token.noConfusion

theorem reads_scanUrl (passed : Nat) (text : Text) :
    Reads (scanUrl passed text).token (scanUrl passed text).problem := by
  unfold scanUrl
  simp only
  split
  · exact .openUrl
  · split
    · exact .sound rfl Token.noConfusion
    · exact .sound rfl Token.noConfusion
    · exact .badUrl

theorem reads_scanIdentLike (text : Text) :
    Reads (scanIdentLike text).token (scanIdentLike text).problem := by
  unfold scanIdentLike
  simp only
  split
  · split
    · split
      · exact .sound rfl Token.noConfusion
      · exact reads_scanUrl ..
    · exact .sound rfl Token.noConfusion
  · exact .sound rfl Token.noConfusion

theorem reads_ofChar? {c : Char} {token : Token} (h : ofChar? c = some token) :
    Reads token none := by
  unfold ofChar? at h
  split at h
  all_goals first
    | contradiction
    | (obtain rfl := Option.some.inj h; exact .sound rfl Token.noConfusion)

/-- Every token that is scanned is of the kind its fault belongs to. -/
theorem reads_scan (lineComments : Bool) (c : Char) (cs : Text) :
    Reads (scan lineComments c cs).token (scan lineComments c cs).problem := by
  have hdelim : Reads (delim c) none := .sound rfl Token.noConfusion
  unfold scan
  simp only
  split
  · exact reads_ofChar? ‹_›
  split
  · exact .sound rfl Token.noConfusion
  split
  · exact reads_scanNumeric _
  split
  · split
    · exact reads_scanComment _
    · split
      · exact .sound rfl Token.noConfusion
      · exact hdelim
    · exact hdelim
  · exact reads_scanString ..
  · exact reads_scanString ..
  · split
    · exact hdelim
    · exact .sound rfl Token.noConfusion
  · split
    · exact .sound rfl Token.noConfusion
    · exact hdelim
  · split
    · exact .sound rfl Token.noConfusion
    · exact hdelim
  · split
    · exact .sound rfl Token.noConfusion
    · split
      · exact reads_scanIdentLike _
      · exact hdelim
  · split
    · exact reads_scanIdentLike _
    · exact .badEscape
  · split
    · exact reads_scanIdentLike _
    · exact hdelim

end Token

/-- What is wrong with a reading belongs to its token. -/
theorem Reading.reads_of_mem_all {lineComments : Bool} {offset : Nat} {text : Text}
    {reading : Reading} (h : reading ∈ all lineComments offset text) :
    reading.lexeme.token.Reads reading.problem := by
  fun_induction all lineComments offset text with
  | case1 => simp at h
  | case2 offset c cs first ih =>
    obtain rfl | hrest := List.mem_cons.1 h
    · exact Token.reads_scan ..
    · exact ih hrest

end Css
