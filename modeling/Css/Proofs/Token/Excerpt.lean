import Css.Proofs.Token.Malformed
import Css.Proofs.Token.RawText
import Mathlib.Data.List.Chain

/-!
# Source text of a part, read on its own

The source text of a part of a text is read as the lexemes of that part, escapes included, with one
space for the trivia between two of them (`Lexeme.condensed_rawText`). The part must not end behind
the bracket of a quoted url. If there are comments in it, no lexeme in front of trivia may end in an
escape that takes a space (`Lexeme.takesSpace`), since what follows the trivia is then read as part
of it (`Lexeme.not_condensed_rawText`).
-/

namespace Css

/-- A text goes on with no token that it does not go on with where more follows. -/
theorem Alike.of_append (front x : Text) : Alike (front ++ x) front := by
  by_cases hlone : front = ['\\'] ∨ front = ['-', '\\']
  · -- a backslash at the end is no part of a name, and what follows can only make it one
    exact {
      head := fun c _ hc => by obtain rfl | rfl := hlone <;> exact hc
      digit := fun h => by obtain rfl | rfl := hlone <;> contradiction
      fraction := fun h => by obtain rfl | rfl := hlone <;> contradiction
      signed := fun rest h => by obtain rfl | rfl := hlone <;> cases h
      unit := fun h => by
        obtain rfl | rfl := hlone
        · contradiction
        · simp [nameUnit, isNameChar]
      name := fun h => by obtain rfl | rfl := hlone <;> contradiction
      hyphen := fun h => by
        obtain rfl | rfl := hlone
        · contradiction
        · rfl
      markup := fun h => by obtain rfl | rfl := hlone <;> contradiction }
  · obtain ⟨hone, htwo⟩ := not_or.1 hlone
    have hdiverges : Diverges x [] := .inl (.inl fun c hc => by contradiction)
    simpa using hdiverges.append hone htwo

theorem Token.scanIdentLike_ne_delim (text : Text) (c : Char) :
    (scanIdentLike text).token ≠ delim c := by
  unfold scanIdentLike scanUrl scanBadUrl
  simp only
  split
  · split
    · split
      · exact Token.noConfusion
      · split
        · exact Token.noConfusion
        · split <;> exact Token.noConfusion
    · exact Token.noConfusion
  · exact Token.noConfusion

/-- Only a backslash on its own is a bad escape. -/
theorem Token.scan_badEscape {lineComments : Bool} {c : Char} {cs : Text}
    (h : (scan lineComments c cs).problem = some (.lex .badEscape)) :
    c = '\\' ∧ (scan lineComments c cs).token = .delim '\\' ∧
      (scan lineComments c cs).length = 1 := by
  have htoken : (scan lineComments c cs).token = .delim '\\' := by
    have hreads := reads_scan lineComments c cs
    rw [h] at hreads
    generalize (scan lineComments c cs).token = token at hreads ⊢
    cases hreads
    rfl
  obtain rfl : c = '\\' := Decidable.byContradiction fun hc => by
    have hopen := isOpen_scan hc (by rw [htoken]; rfl) h
    rw [htoken] at hopen
    obtain hbad | hopen := hopen
    · contradiction
    · cases hopen
  refine ⟨rfl, htoken, ?_⟩
  rw [scan_backslash] at htoken ⊢
  split at htoken
  · exact absurd htoken (scanIdentLike_ne_delim _ _)
  · rename_i hstarts
    rw [if_neg hstarts]

namespace Lexeme

variable {lineComments : Bool} {lexeme : Lexeme} {xs ys : List Lexeme} {x y : Text}

/-! ### Lexemes that do not lack their end -/

namespace IsRead

/-- A lexeme that does not lack its end is spelled by its characters, or is a lone backslash. -/
theorem spells_or_backslash (h : IsRead lineComments lexeme x)
    (hwhole : lexeme.fault? = none ∨ lexeme.fault? = some (.lex .badEscape))
    (hcomment : lexeme.isComment = false) :
    Token.Spells lineComments x lexeme.token lexeme.raw ∨
      (lexeme.token = .delim '\\' ∧ lexeme.raw = ['\\']) := by
  obtain ⟨c, cs, hraw, htoken, hlength⟩ := h
  have hsplit : c :: (cs ++ x) = lexeme.raw ++ x := by rw [hraw]; rfl
  have hjudged := Token.isJudged_scan lineComments c (cs ++ x)
  rw [Token.IsJudged, htoken, hlength, hsplit, List.take_left] at hjudged
  cases hproblem : (Token.scan lineComments c (cs ++ x)).problem with
  | none =>
    have hspelled := Token.isSpelled_scan lineComments hproblem fun content heq => by
      rw [isComment, ← htoken, heq] at hcomment
      contradiction
    rw [Token.Scan.IsSpelled, htoken, hlength, hsplit, List.take_left, List.drop_left] at hspelled
    exact .inl hspelled
  | some problem =>
    have hescape : problem = .lex .badEscape := by
      rw [hproblem] at hjudged
      split at hjudged
      · contradiction
      · obtain hnone | hsome := hwhole
        · exact absurd (hjudged.trans hnone) (Option.some_ne_none problem)
        · exact Option.some.inj (hjudged.trans hsome)
    obtain ⟨rfl, hdelim, hone⟩ := Token.scan_badEscape (hescape ▸ hproblem)
    rw [hlength, hraw, List.length_cons] at hone
    obtain rfl : cs = [] := List.length_eq_zero_iff.1 (Nat.succ.inj hone)
    exact .inr ⟨htoken.symm.trans hdelim, hraw⟩

theorem of_backslash (htoken : lexeme.token = .delim '\\') (hraw : lexeme.raw = ['\\'])
    (hescape : escapeLength ('\\' :: x) = 0) : IsRead lineComments lexeme x := by
  have hstarts : startsName ('\\' :: x) = false := by
    simp [startsName, startsPlainName, isNameStart, hescape]
  refine ⟨'\\', [], hraw, ?_⟩
  rw [List.nil_append, Token.scan_backslash, hstarts, htoken, hraw]
  exact ⟨rfl, rfl⟩

/-- A lexeme that does not lack its end stays what it is in front of a text that goes on with no
token the old text did not go on with, and with neither its name nor a lone backslash. -/
theorem congr_of_nameEnds (h : IsRead lineComments lexeme x) (htrivia : lexeme.isTrivia = false)
    (hwhole : lexeme.fault? = none ∨ lexeme.fault? = some (.lex .badEscape))
    (hend : x = [] → y = []) (halike : Alike x y)
    (hends : ∀ name, lexeme.token.endName? = some name → NameEnds name x → NameEnds name y)
    (hescape : lexeme.raw = ['\\'] → escapeLength ('\\' :: y) = 0)
    (hopens : ∀ name blanks, lexeme.token = .function name → name.isKeyword "url" = true →
      Token.OpensString blanks x → Token.OpensString blanks y) :
    IsRead lineComments lexeme y := by
  by_cases hx : x = []
  · rw [hend hx, ← hx]
    exact h
  obtain hspells | ⟨htoken, hraw⟩ :=
    h.spells_or_backslash hwhole (isComment_of_not_isTrivia htrivia)
  · have hspace : lexeme.token ≠ .whitespace := by
      intro heq
      rw [Lexeme.isTrivia, heq] at htrivia
      contradiction
    obtain ⟨c, cs, hraw, hscan⟩ := (hspells.congr_of_nameEnds hspace hx halike
      (fun name hname => hends name hname (hspells.nameEnds hname).1)
      fun name blanks htoken hname _ => hopens name blanks htoken hname).scan_eq
    exact ⟨c, cs, hraw, by rw [hscan], by rw [hscan]⟩
  · exact of_backslash htoken hraw (hescape hraw)

theorem spells_whitespace (h : IsRead lineComments lexeme x) (htoken : lexeme.token = .whitespace) :
    Token.Spells lineComments x .whitespace lexeme.raw := by
  refine htoken ▸ h.spells_of_sound (fun problem hreads => ?_) (by simp [htoken])
  rw [htoken] at hreads
  cases hreads

/-- Behind whitespace no blank follows. -/
theorem isBlank_head_of_whitespace (h : IsRead lineComments lexeme x)
    (htoken : lexeme.token = .whitespace) {c : Char} {rest : Text} (hx : x = c :: rest) :
    Css.isBlank c = false := by
  have hspells := h.spells_whitespace htoken
  generalize lexeme.raw = raw at hspells
  cases hspells with
  | single hchar => exact (Token.isPlain_of_ofChar? hchar).1.elim
  | whitespace _ _ hfollow => exact hfollow c (by rw [hx]; rfl)

end IsRead

/-! ### Parts without comments -/

theorem whitespace_of_isTrivia (htrivia : lexeme.isTrivia = true)
    (hcomment : lexeme.isComment = false) : lexeme.token = .whitespace := by
  obtain ⟨token, span, raw⟩ := lexeme
  cases token <;> first | rfl | contradiction

/-- The string of a quoted url stands where it did if what follows the lexemes is cut off. -/
theorem opensString_nil {opener : Lexeme} (hread : EachStands (IsRead lineComments) xs x)
    (hends : EndsBefore x (opener :: xs))
    (hopener : ∃ name, opener.token = .function name ∧ name.isKeyword "url" = true)
    {blanks : Text} (hopens : Token.OpensString blanks (text xs ++ x)) :
    Token.OpensString blanks (text xs) := by
  have hfront : ∀ {xs : List Lexeme} {q : Char} {rest : Text}, xs ≠ [] →
      EachStands (IsRead lineComments) xs x → text xs ++ x = q :: rest →
        ∃ rest', text xs = q :: rest' := by
    intro xs q rest hne hread hstarts
    obtain ⟨c, cs, hcons⟩ := List.exists_cons_of_ne_nil fun hnil => hne (text_eq_nil hread hnil)
    rw [hcons] at hstarts
    obtain ⟨rfl, -⟩ := List.cons.inj hstarts
    exact ⟨cs, hcons⟩
  have hxs : xs ≠ [] := by
    rintro rfl
    rw [hends.eq_nil (.inr hopener)] at hopens
    obtain ⟨-, q, rest, hnil, -⟩ | ⟨b, q, rest, hnil, -⟩ := hopens <;> contradiction
  obtain ⟨rfl, q, rest, hstarts, hquote⟩ | ⟨b, q, rest, hstarts, hblank, hquote⟩ := hopens
  · obtain ⟨rest', hrest'⟩ := hfront hxs hread hstarts
    exact .inl ⟨rfl, q, rest', hrest', hquote⟩
  · obtain ⟨blank, xs, rfl⟩ := List.exists_cons_of_ne_nil hxs
    rw [text_cons, List.append_assoc] at hstarts
    obtain ⟨hwhitespace, hrest⟩ := hread.1.eq_whitespace hstarts hblank hquote
    have hraw : blank.raw = [b] := by
      rw [hrest] at hstarts
      exact List.append_cancel_right (hstarts.trans (List.singleton_append ..).symm)
    have hne : xs ≠ [] := by
      rintro rfl
      have hlast : EndsBefore x [blank] := hends.of_append [opener]
      rw [hlast.eq_nil (.inl (by rw [Lexeme.isTrivia, hwhitespace]; rfl))] at hrest
      contradiction
    obtain ⟨rest', hrest'⟩ := hfront hne hread.2 hrest
    exact .inr ⟨b, q, rest', by rw [text_cons, hraw, hrest']; rfl, hblank, hquote⟩

/-- Lexemes without comments are read as what they are where nothing follows them. -/
theorem eachStands_nil (hread : EachStands (IsRead lineComments) xs x)
    (hwhole : ∀ lexeme ∈ xs, lexeme.fault? = none ∨ lexeme.fault? = some (.lex .badEscape))
    (hcomment : ∀ lexeme ∈ xs, lexeme.isComment = false) (hends : EndsBefore x xs) :
    EachStands (IsRead lineComments) xs [] := by
  induction xs with
  | nil => trivial
  | cons lexeme xs ih =>
    obtain ⟨hfault, hwhole⟩ := List.forall_mem_cons.1 hwhole
    obtain ⟨hplain, hcomment⟩ := List.forall_mem_cons.1 hcomment
    refine ⟨?_, ih hread.2 hwhole hcomment (hends.of_append [lexeme])⟩
    rw [List.append_nil]
    cases htrivia : lexeme.isTrivia with
    | true =>
      have htoken := whitespace_of_isTrivia htrivia hplain
      refine (hread.1.isSpace htoken).isRead lineComments fun c rest hstarts => ?_
      exact hread.1.isBlank_head_of_whitespace htoken (by rw [hstarts]; rfl)
    | false =>
      have halike := Alike.of_append (text xs) x
      refine hread.1.congr_of_nameEnds htrivia hfault
        (fun hnil => (List.append_eq_nil_iff.1 hnil).1) halike (fun name _ hname => ?_)
        (fun hraw => ?_) fun name blanks htoken hname => ?_
      · refine hname.congr (Decidable.byContradiction fun hne =>
          halike.unit hne hname.nameUnit_eq_zero) fun c hc _ => ?_
        rw [List.head?_append, hc]
        rfl
      · have hescape := hread.1.escapeLength_of_backslash hraw
        cases hrest : text xs with
        | nil => rfl
        | cons c rest =>
          rw [hrest, List.cons_append] at hescape
          refine Decidable.byContradiction fun hne => ?_
          exact (escapeLength_cons_ne_zero ..).2 ((escapeLength_cons_ne_zero ..).1 hne) hescape
      · exact opensString_nil hread.2 hends ⟨name, htoken, hname⟩

/-! ### Parts with comments -/

/-- Whether a lexeme is a lone backslash, or ends in an escape that holds a space at its end or that
a space behind it would be part of. -/
def takesSpace (lexeme : Lexeme) : Bool :=
  lexeme.raw == ['\\'] ||
    match lexeme.token.endName? with
    | some name => name.getLast? == some ' ' || nameLength (name ++ [' ']) != name.length
    | none => false

/-- Whether trivia behind a lexeme can become a space. -/
def MayPart (left right : Lexeme) : Prop := right.isTrivia = true → left.takesSpace = false

instance : DecidableRel MayPart := fun left right =>
  inferInstanceAs (Decidable (right.isTrivia = true → left.takesSpace = false))

theorem takesSpace_eq_false (h : lexeme.takesSpace = false) :
    lexeme.raw ≠ ['\\'] ∧ ∀ name, lexeme.token.endName? = some name →
      name.getLast? ≠ some ' ' ∧ NameEnds name [' '] := by
  obtain ⟨hraw, hname⟩ := Bool.or_eq_false_iff.1 h
  refine ⟨beq_eq_false_iff_ne.1 hraw, fun name hend => ?_⟩
  rw [hend] at hname
  obtain ⟨hlast, hlength⟩ := Bool.or_eq_false_iff.1 hname
  exact ⟨beq_eq_false_iff_ne.1 hlast, by simpa [NameEnds] using hlength⟩

theorem isChain_endsUnspaced_of_mayPart (hread : EachStands (IsRead lineComments) xs x)
    (hwhole : ∀ lexeme ∈ xs, lexeme.fault? = none ∨ lexeme.fault? = some (.lex .badEscape))
    (hparts : xs.IsChain MayPart) : xs.IsChain EndsUnspaced := by
  induction xs with
  | nil => exact .nil
  | cons lexeme xs ih =>
    obtain ⟨hfault, hwhole⟩ := List.forall_mem_cons.1 hwhole
    have ih := ih hread.2 hwhole hparts.of_cons
    cases xs with
    | nil => exact .singleton _
    | cons next xs =>
      refine List.isChain_cons_cons.2 ⟨fun hnext htrivia hlast => ?_, ih⟩
      obtain ⟨hraw, hnames⟩ := takesSpace_eq_false ((List.isChain_cons_cons.1 hparts).1 hnext)
      obtain hspells | ⟨-, hbackslash⟩ :=
        hread.1.spells_or_backslash hfault (isComment_of_not_isTrivia htrivia)
      · refine hspells.exists_quotedUrl hlast (fun htoken => ?_) (by simp [hread.2.1.raw_ne_nil])
          fun name hname => (hnames name hname).1
        rw [Lexeme.isTrivia, htoken] at htrivia
        contradiction
      · exact absurd hbackslash hraw

/-- A name ends where it did if single spaces stand for the trivia behind it. -/
theorem Respaced.nameEnds (h : Respaced xs ys) (hread : EachStands (IsRead lineComments) xs x)
    (halike : Alike (text xs ++ x) (text ys))
    (hspaces : ∀ lexeme ∈ ys, lexeme.isTrivia = true → lexeme = Lexeme.space) {name : Text}
    (hname : NameEnds name (text xs ++ x))
    (hspace : ∀ first ∈ xs.head?, first.isTrivia = true → NameEnds name [' ']) :
    NameEnds name (text ys) := by
  by_cases hhead : ∃ first ∈ xs.head?, first.isTrivia = true
  · obtain ⟨first, hfirst, htrivia⟩ := hhead
    have hends := hspace first hfirst htrivia
    cases h with
    | nil => contradiction
    | token hsolid =>
      obtain rfl := Option.some.inj hfirst
      rw [hsolid] at htrivia
      contradiction
    | gap _ _ _ hblank =>
      have hraw := hspaces _ List.mem_cons_self (by rw [Lexeme.isTrivia, hblank.token]; rfl)
      rw [hraw]
      exact hends.congr rfl fun c hc _ => hc
    | quotedUrl _ htoken =>
      obtain rfl := Option.some.inj hfirst
      rw [Lexeme.isTrivia, htoken] at htrivia
      contradiction
  · have hhead : ∀ first ∈ xs.head?, first.isTrivia = false :=
      fun first hfirst => Bool.eq_false_iff.2 fun htrivia => hhead ⟨first, hfirst, htrivia⟩
    refine hname.congr (Decidable.byContradiction fun hne =>
      halike.unit hne hname.nameUnit_eq_zero) fun c hc _ => ?_
    obtain ⟨-, rfl⟩ | ⟨d, p, q, hfirst, hfirst'⟩ := h.text_eq_cons hread hhead
    · contradiction
    · rw [hfirst'] at hc
      rw [hfirst]
      exact hc

/-- Lexemes are read where they have single spaces for the trivia between them, if trivia behind
each of them can become a space. -/
theorem Respaced.eachStands_of_mayPart (h : Respaced xs ys)
    (hread : EachStands (IsRead lineComments) xs x)
    (hwhole : ∀ lexeme ∈ xs, lexeme.fault? = none ∨ lexeme.fault? = some (.lex .badEscape))
    (hends : EndsBefore x xs) (hparts : xs.IsChain MayPart)
    (hspaces : ∀ lexeme ∈ ys, lexeme.isTrivia = true → lexeme = Lexeme.space) :
    EachStands (IsRead lineComments) ys [] := by
  refine h.eachStands_of hread hends (fun _ => rfl)
    fun {lexeme rest rest'} hxs hys hpart htrivia _ hrest => ?_
  have hends : EndsBefore x (lexeme :: rest) := by
    obtain ⟨front, rfl⟩ := hxs
    exact hends.of_append front
  have hparts := hparts.suffix hxs
  have hspaces : ∀ first ∈ rest', first.isTrivia = true → first = Lexeme.space :=
    fun first hmem => hspaces first (hys.subset (List.mem_cons_of_mem _ hmem))
  have hnone : ((lexeme :: rest).IsChain fun left right =>
      right.isTrivia = true → left.raw ≠ ['\\']) :=
    hparts.imp fun _ _ hpart hnext => (takesSpace_eq_false (hpart hnext)).1
  have hnil : rest = [] → rest' = [] := hrest.eq_nil_iff.1
  have halike : Alike (text rest ++ x) (text rest' ++ []) := by
    have hempty : StandsApart [] := .inl fun c hc => by contradiction
    obtain ⟨front, p, q, hp, hq, hdiverges, hfront⟩ :=
      hrest.exists_diverges hpart.2 hnone.of_cons hempty
    rw [hp, hq]
    by_cases hlone : front = ['\\'] ∨ front = ['-', '\\']
    · rw [hfront hlone, List.append_nil]
      exact .of_append front p
    · exact hdiverges.append (fun heq => hlone (.inl heq)) fun heq => hlone (.inr heq)
  refine hpart.1.congr_of_nameEnds htrivia (hwhole lexeme (hxs.subset List.mem_cons_self))
    (fun hx => ?_) halike (fun name hname hendsName => ?_) (fun hraw => ?_)
    fun name blanks htoken hname => hrest.opensString hpart.2 hends ⟨name, htoken, hname⟩
  · rw [hnil (text_eq_nil hpart.2 (List.append_eq_nil_iff.1 hx).1)]
    rfl
  · rw [List.append_nil] at halike ⊢
    refine hrest.nameEnds hpart.2 halike hspaces hendsName fun first hfirst hblank => ?_
    obtain ⟨rest, rfl⟩ := List.head?_eq_some_iff.1 hfirst
    exact ((takesSpace_eq_false ((List.isChain_cons_cons.1 hparts).1 hblank)).2 name hname).2
  · obtain rfl := hnil (eq_nil_of_backslash hpart hnone hraw)
    rfl

/-! ### What is read -/

/-- Lexemes that are read without comments have no trivia side by side. -/
theorem condense_map_of_read (hread : EachStands (IsRead lineComments) xs x)
    (hcomment : ∀ lexeme ∈ xs, lexeme.isComment = false) (gap : Bool)
    (hgap : gap = true → ∀ first ∈ xs.head?, first.isTrivia = false) :
    condense.map gap xs = xs.map condensed := by
  induction xs generalizing gap with
  | nil => rfl
  | cons lexeme xs ih =>
    obtain ⟨hplain, hcomment⟩ := List.forall_mem_cons.1 hcomment
    have hrest : condense.map lexeme.isTrivia xs = xs.map condensed := by
      refine ih hread.2 hcomment lexeme.isTrivia fun htrivia next hnext => ?_
      obtain ⟨xs, rfl⟩ := List.head?_eq_some_iff.1 hnext
      refine Bool.eq_false_iff.2 fun hblank => ?_
      have hspace := hread.2.1.isSpace
        (whitespace_of_isTrivia hblank (hcomment next List.mem_cons_self))
      obtain ⟨c, cs, hraw⟩ := List.exists_cons_of_ne_nil hspace.raw_ne_nil
      have hfollow := hread.1.isBlank_head_of_whitespace (whitespace_of_isTrivia htrivia hplain)
        (by rw [text_cons, hraw]; rfl)
      rw [hspace.isBlank c (by simp [hraw])] at hfollow
      contradiction
    have hfront : condense.front gap lexeme = [condensed lexeme] := by
      refine if_neg fun hdropped => ?_
      obtain ⟨hboth, -⟩ := Bool.and_eq_true_iff.1 hdropped
      obtain ⟨htrivia, htrue⟩ := Bool.and_eq_true_iff.1 hboth
      rw [hgap htrue lexeme rfl] at htrivia
      contradiction
    rw [Recast.map_cons, hrest, hfront]
    rfl

theorem condensed_bare (lexeme : Lexeme) : condensed (bare lexeme) = condensed lexeme := rfl

/-- What is read again is what is written in one way. -/
theorem condensed_all (hread : EachStands (IsRead lineComments) xs [])
    (hcomment : ∀ lexeme ∈ xs, lexeme.isComment = false) (offset : Nat) :
    ((Reading.all lineComments offset (text xs)).map (·.lexeme)).map condensed =
      condense.map false xs := by
  have hbare := congrArg (List.map condensed) (Reading.bare_all hread offset)
  simp only [List.map_map, Function.comp_def, condensed_bare] at hbare ⊢
  rw [hbare, condense_map_of_read hread hcomment false fun h => Bool.noConfusion h]

/-- Nothing that is read again is a comment where none is written. -/
theorem isComment_all (hread : EachStands (IsRead lineComments) xs [])
    (hcomment : ∀ lexeme ∈ xs, lexeme.isComment = false) (offset : Nat) :
    ∀ lexeme ∈ (Reading.all lineComments offset (text xs)).map (·.lexeme),
      lexeme.isComment = false := by
  intro lexeme hmem
  have hbare : bare lexeme ∈ xs.map bare := by
    rw [← Reading.bare_all hread offset]
    exact List.mem_map_of_mem hmem
  obtain ⟨other, hother, heq⟩ := List.mem_map.1 hbare
  have hkind : (bare lexeme).isComment = (bare other).isComment := by rw [heq]
  exact hkind.trans (hcomment other hother)

/-- The source text of a part is that of lexemes without comments that have one space for the
trivia of the part. -/
theorem exists_rawText {source : Text} {part : List Lexeme}
    (hpart : part <:+: (Reading.all lineComments 0 source).map (·.lexeme))
    (hwhole : ∀ lexeme ∈ part, lexeme.fault? = none ∨ lexeme.fault? = some (.lex .badEscape))
    (hurl : ∀ last ∈ (trim part).getLast?, ∀ name, last.token = .function name →
      name.isKeyword "url" = false)
    (hparts : (trim part).any isComment = true → (trim part).IsChain MayPart) :
    ∃ ys, rawText part = text ys ∧ EachStands (IsRead lineComments) ys [] ∧
      (∀ lexeme ∈ ys, lexeme.isComment = false) ∧
      condense.map false ys = condense.map false (trim part) := by
  obtain ⟨front, back, hsource⟩ := hpart
  obtain ⟨before, after, htrim, -⟩ := exists_trim part
  have hread := Reading.eachStands_all lineComments 0 source
  rw [← hsource, htrim, List.append_assoc, List.append_assoc, List.append_assoc] at hread
  have hread := (eachStands_append.1 (eachStands_append.1 (eachStands_append.1 hread).2).2).1
  have hwhole : ∀ lexeme ∈ trim part,
      lexeme.fault? = none ∨ lexeme.fault? = some (.lex .badEscape) :=
    fun lexeme hmem => hwhole lexeme ((isInfix_trim part).subset hmem)
  have hends : EndsBefore (text (after ++ back) ++ []) (trim part) :=
    .inr fun last hlast => ⟨isTrivia_of_mem_getLast?_trim part last hlast, hurl last hlast⟩
  cases hcomment : (trim part).any isComment with
  | false =>
    have hnone : ∀ lexeme ∈ trim part, lexeme.isComment = false := by
      simpa [List.any_eq_false] using hcomment
    refine ⟨trim part, ?_, eachStands_nil hread hwhole hnone hends, hnone, rfl⟩
    rw [rawText, hcomment, if_neg Bool.false_ne_true]
    rfl
  | true =>
    have hparts := hparts hcomment
    have hbad : ∀ lexeme ∈ trim part, lexeme.token.isBad = false := by
      intro lexeme hmem
      have hfault := hwhole lexeme hmem
      obtain ⟨token, span, raw⟩ := lexeme
      cases token <;> first | rfl | simp [fault?, Token.fault?] at hfault
    obtain ⟨ys, hys, htext, hspaces⟩ := exists_respaced_joinSpaced hread
      (isChain_endsUnspaced_of_mayPart hread hwhole hparts) hbad []
    have hrespaced : Respaced (trim part) ys := by simpa using hys
    refine ⟨ys, ?_, hrespaced.eachStands_of_mayPart hread hwhole hends hparts hspaces,
      hrespaced.isComment_eq, (hrespaced.condense_eq false).symm⟩
    rw [rawText, hcomment, if_pos rfl, htext, List.nil_append]

/-- The source text of a part is read as the lexemes of the part, with one space for the trivia
between two of them. Comments are gone from it. -/
theorem condensed_rawText {source : Text} {part : List Lexeme}
    (hpart : part <:+: (Reading.all lineComments 0 source).map (·.lexeme))
    (hwhole : ∀ lexeme ∈ part, lexeme.fault? = none ∨ lexeme.fault? = some (.lex .badEscape))
    (hurl : ∀ last ∈ (trim part).getLast?, ∀ name, last.token = .function name →
      name.isKeyword "url" = false)
    (hparts : (trim part).any isComment = true → (trim part).IsChain MayPart) :
    ((Reading.all lineComments 0 (rawText part)).map (·.lexeme)).map condensed =
        condense.map false (trim part) ∧
      ∀ lexeme ∈ (Reading.all lineComments 0 (rawText part)).map (·.lexeme),
        lexeme.isComment = false := by
  obtain ⟨ys, htext, hread, hcomment, hcondense⟩ := exists_rawText hpart hwhole hurl hparts
  rw [htext, condensed_all hread hcomment, hcondense]
  exact ⟨rfl, isComment_all hread hcomment 0⟩

theorem condensed_rawText_escape :
    ((Reading.all true 0 (rawText (((Reading.all true 0 "x:a\\z/**/ url( 'b');".toList).map
        (·.lexeme)).drop 2))).map (·.lexeme)).map condensed =
      [⟨.ident "a\\z".toList, .point 0, "a\\z".toList⟩, space,
        ⟨.function "url".toList, .point 0, "url(".toList⟩, space,
        ⟨.string "b".toList .single, .point 0, "'b'".toList⟩,
        ⟨.closing .round, .point 0, ")".toList⟩, ⟨.semicolon, .point 0, ";".toList⟩] := by
  have hlast : (trim (((Reading.all true 0 "x:a\\z/**/ url( 'b');".toList).map
      (·.lexeme)).drop 2)).getLast? = some ⟨.semicolon, ⟨19, 20⟩, ";".toList⟩ := by decide +kernel
  refine (condensed_rawText (List.drop_suffix ..).isInfix (by decide +kernel)
    (fun last hmem name htoken => ?_) (by decide +kernel)).1.trans (by decide +kernel)
  obtain rfl := Option.some.inj (hlast.symm.trans hmem)
  contradiction

/-- A comment behind an escape that ends in a space leaves no space behind: two names become one. -/
theorem not_condensed_rawText :
    let part := (Reading.all true 0 "a\\ /**/b".toList).map (·.lexeme)
    (∀ lexeme ∈ part, lexeme.fault? = none) ∧
      condense.map false (trim part) =
        [⟨.ident "a\\ ".toList, .point 0, "a\\ ".toList⟩, space,
          ⟨.ident "b".toList, .point 0, "b".toList⟩] ∧
      ((Reading.all true 0 (rawText part)).map (·.lexeme)).map condensed =
        [⟨.ident "a\\ b".toList, .point 0, "a\\ b".toList⟩] := by
  decide +kernel

end Lexeme

end Css
