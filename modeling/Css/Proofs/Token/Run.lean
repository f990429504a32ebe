import Css.Proofs.Token.Scanned
import Css.Token.Run
import Mathlib.Data.List.TakeWhile

/-!
# Runs as lexemes

The run of some lexemes is made of its own tokens (`IsNormal.ofLexemes_toLexemes`): nothing in it is
left out, and no trivia stand at its ends or side by side. What reads a run through the tokens that
are no trivia finds in it what it finds in the lexemes it was made of (`next?_ofLexemes`).
-/

namespace Css

theorem Token.opens?_of_isTrivia {token : Token} (h : token.isTrivia = true) :
    token.opens? = none := by
  cases token <;> first | rfl | contradiction

theorem Token.closes?_of_isTrivia {token : Token} (h : token.isTrivia = true) :
    token.closes? = none := by
  cases token <;> first | rfl | contradiction

theorem Token.opens?_of_function {token : Token} {name : Text} (h : token = .function name) :
    token.opens? = some .round := by
  rw [h]
  rfl

namespace Lexeme

theorem next?_of_isTrivia {lexeme : Lexeme} (h : lexeme.isTrivia = true) (lexemes : List Lexeme) :
    next? (lexeme :: lexemes) = next? lexemes :=
  if_pos h

theorem next?_of_not_isTrivia {lexeme : Lexeme} (h : lexeme.isTrivia = false)
    (lexemes : List Lexeme) : next? (lexeme :: lexemes) = some (lexeme.token, lexemes) :=
  if_neg (by rw [h]; exact Bool.false_ne_true)

/-- The first token that is no trivia stands behind trivia only. -/
theorem exists_of_next? {lexemes rest : List Lexeme} {token : Token}
    (h : next? lexemes = some (token, rest)) :
    ∃ front lexeme, lexemes = front ++ lexeme :: rest ∧ lexeme.token = token ∧
      lexeme.isTrivia = false ∧ ∀ trivia ∈ front, trivia.isTrivia = true := by
  induction lexemes with
  | nil => contradiction
  | cons lexeme lexemes ih =>
    cases htrivia : lexeme.isTrivia with
    | true =>
      rw [next?_of_isTrivia htrivia] at h
      obtain ⟨front, found, rfl, htoken, hfound, hfront⟩ := ih h
      exact ⟨lexeme :: front, found, rfl, htoken, hfound,
        List.forall_mem_cons.2 ⟨htrivia, hfront⟩⟩
    | false =>
      rw [next?_of_not_isTrivia htrivia] at h
      obtain ⟨rfl, rfl⟩ := Prod.mk.inj (Option.some.inj h)
      exact ⟨[], lexeme, rfl, rfl, htrivia, List.forall_mem_nil _⟩

theorem suffix_of_next? {lexemes rest : List Lexeme} {token : Token}
    (h : next? lexemes = some (token, rest)) : rest <:+ lexemes := by
  obtain ⟨front, lexeme, rfl, -⟩ := exists_of_next? h
  exact ⟨front ++ [lexeme], by simp⟩

theorem next?_dropTrivia (lexemes : List Lexeme) : next? (dropTrivia lexemes) = next? lexemes := by
  induction lexemes with
  | nil => rfl
  | cons lexeme lexemes ih =>
    cases htrivia : lexeme.isTrivia with
    | true =>
      rw [dropTrivia, List.dropWhile_cons_of_pos htrivia, next?_of_isTrivia htrivia]
      exact ih
    | false => rw [dropTrivia, List.dropWhile_cons_of_neg (by simp [htrivia])]

theorem dropTrivia_eq_self {lexemes : List Lexeme}
    (h : ∀ lexeme ∈ lexemes.head?, lexeme.isTrivia = false) : dropTrivia lexemes = lexemes := by
  cases lexemes with
  | nil => rfl
  | cons lexeme lexemes => exact List.dropWhile_cons_of_neg (by simp [h lexeme rfl])

theorem trim_eq_self {lexemes : List Lexeme}
    (hhead : ∀ lexeme ∈ lexemes.head?, lexeme.isTrivia = false)
    (hlast : ∀ lexeme ∈ lexemes.getLast?, lexeme.isTrivia = false) : trim lexemes = lexemes := by
  rw [trim, dropTrivia_eq_self hhead, dropTrivia_eq_self, List.reverse_reverse]
  rwa [List.head?_reverse]

theorem next?_eq_none {lexemes : List Lexeme} (h : next? lexemes = none) :
    isVoid lexemes = true := by
  induction lexemes with
  | nil => rfl
  | cons lexeme lexemes ih =>
    cases htrivia : lexeme.isTrivia with
    | true =>
      rw [next?_of_isTrivia htrivia] at h
      rw [isVoid, List.all_cons, htrivia]
      exact ih h
    | false =>
      rw [next?_of_not_isTrivia htrivia] at h
      contradiction

theorem trim_prefix_dropTrivia (lexemes : List Lexeme) : trim lexemes <+: dropTrivia lexemes := by
  have hsuffix : dropTrivia (dropTrivia lexemes).reverse <:+ (dropTrivia lexemes).reverse :=
    List.dropWhile_suffix _
  have hprefix := List.reverse_prefix.2 hsuffix
  rwa [List.reverse_reverse] at hprefix

theorem isInfix_trim (lexemes : List Lexeme) : trim lexemes <:+: lexemes := by
  obtain ⟨back, hback⟩ := trim_prefix_dropTrivia lexemes
  obtain ⟨front, hfront⟩ := @List.dropWhile_suffix _ lexemes Lexeme.isTrivia
  exact ⟨front, back, by rw [List.append_assoc, hback]; exact hfront⟩

/-- Trimmed lexemes neither start nor end with trivia. -/
theorem isTrivia_of_mem_head?_trim (lexemes : List Lexeme) :
    ∀ lexeme ∈ (trim lexemes).head?, lexeme.isTrivia = false := by
  intro lexeme hmem
  obtain ⟨back, hback⟩ := trim_prefix_dropTrivia lexemes
  have hhead := List.head?_dropWhile_not isTrivia lexemes
  rw [← dropTrivia, ← hback, List.head?_append, hmem] at hhead
  simpa using hhead

theorem isTrivia_of_mem_getLast?_trim (lexemes : List Lexeme) :
    ∀ lexeme ∈ (trim lexemes).getLast?, lexeme.isTrivia = false := by
  intro lexeme hmem
  have hhead := List.head?_dropWhile_not isTrivia (dropTrivia lexemes).reverse
  rw [trim, List.getLast?_reverse] at hmem
  rw [← dropTrivia, hmem] at hhead
  simpa using hhead

theorem exists_trim (lexemes : List Lexeme) :
    ∃ before after, lexemes = before ++ (trim lexemes ++ after) ∧ isVoid before = true ∧
      isVoid after = true := by
  refine ⟨lexemes.takeWhile isTrivia, ((dropTrivia lexemes).reverse.takeWhile isTrivia).reverse,
    ?_, List.all_takeWhile, ?_⟩
  · rw [trim, ← List.reverse_append, dropTrivia, dropTrivia, List.takeWhile_append_dropWhile,
      List.reverse_reverse, List.takeWhile_append_dropWhile]
  · rw [isVoid, List.all_reverse]
    exact List.all_takeWhile

theorem dropTrivia_append {before : List Lexeme} (h : isVoid before = true)
    (lexemes : List Lexeme) : dropTrivia (before ++ lexemes) = dropTrivia lexemes :=
  List.dropWhile_append_of_pos (List.all_eq_true.1 h)

theorem dropTrivia_of_isVoid {lexemes : List Lexeme} (h : isVoid lexemes = true) :
    dropTrivia lexemes = [] := by
  have hdrop := dropTrivia_append h []
  rwa [List.append_nil] at hdrop

theorem trim_append {before lexemes after : List Lexeme} (hbefore : isVoid before = true)
    (hafter : isVoid after = true) (hhead : ∀ lexeme ∈ lexemes.head?, lexeme.isTrivia = false)
    (hlast : ∀ lexeme ∈ lexemes.getLast?, lexeme.isTrivia = false) :
    trim (before ++ (lexemes ++ after)) = lexemes := by
  rw [trim, dropTrivia_append hbefore]
  have hreverse : isVoid after.reverse = true := by rwa [isVoid, List.all_reverse]
  cases lexemes with
  | nil =>
    rw [List.nil_append, dropTrivia_of_isVoid hafter]
    rfl
  | cons lexeme lexemes =>
    have hfront : dropTrivia (lexeme :: lexemes ++ after) = lexeme :: lexemes ++ after :=
      dropTrivia_eq_self hhead
    rw [hfront, List.reverse_append, dropTrivia_append hreverse, dropTrivia_eq_self,
      List.reverse_reverse]
    rwa [List.head?_reverse]

/-- The first token of what is left of trivia at both ends. -/
theorem exists_next?_of_trim {lexeme : Lexeme} {lexemes rest : List Lexeme}
    (h : trim lexemes = lexeme :: rest) :
    ∃ behind, next? lexemes = some (lexeme.token, behind) := by
  obtain ⟨back, hback⟩ := trim_prefix_dropTrivia lexemes
  rw [h, List.cons_append] at hback
  have hhead := List.head?_dropWhile_not isTrivia lexemes
  rw [show lexemes.dropWhile isTrivia = lexeme :: (rest ++ back) from hback.symm,
    List.head?_cons] at hhead
  rw [← next?_dropTrivia, ← hback, next?_of_not_isTrivia (by simpa using hhead)]
  exact ⟨_, rfl⟩

end Lexeme

namespace TokenRun

open Lexeme

def toLexemes (run : TokenRun) : List Lexeme :=
  run.map fun token => ⟨token, .point 0, token.toText .pretty⟩

@[simp]
theorem toLexemes_append (left right : TokenRun) :
    toLexemes (left ++ right) = left.toLexemes ++ right.toLexemes :=
  List.map_append

@[simp]
theorem toLexemes_cons (token : Token) (run : TokenRun) :
    toLexemes (token :: run) = ⟨token, .point 0, token.toText .pretty⟩ :: run.toLexemes := rfl

theorem tokens_toLexemes (run : TokenRun) : tokens run.toLexemes = run := by
  rw [tokens, toLexemes, List.map_map]
  exact List.map_id run

theorem text_toLexemes (run : TokenRun) : Lexeme.text run.toLexemes = run.toText .pretty := by
  rw [Lexeme.text, toLexemes, List.flatMap_map]
  rfl

theorem toText_pretty_append (left right : TokenRun) :
    toText .pretty (left ++ right) = left.toText .pretty ++ right.toText .pretty :=
  List.flatMap_append

theorem toText_pretty_cons (token : Token) (run : TokenRun) :
    toText .pretty (token :: run) = token.toText .pretty ++ run.toText .pretty := rfl

/-! ### Collapsing -/

theorem collapse_trivia {token : Token} (h : token.isTrivia = true) (gap : Bool) (run : TokenRun) :
    collapse gap (token :: run) = collapse true run := by
  rw [collapse, if_pos h]

theorem collapse_token {token : Token} (h : token.isTrivia = false) (gap : Bool) (run : TokenRun) :
    collapse gap (token :: run) =
      if gap then .whitespace :: token :: collapse false run else token :: collapse false run := by
  rw [collapse, if_neg (by rw [h]; exact Bool.false_ne_true)]

theorem mem_collapse {gap : Bool} {run : TokenRun} {token : Token}
    (h : token ∈ collapse gap run) : token = .whitespace ∨ token ∈ run := by
  induction run generalizing gap with
  | nil => contradiction
  | cons first run ih =>
    have hrest : token ∈ collapse false run → token = .whitespace ∨ token ∈ first :: run :=
      fun hmem => (ih hmem).imp_right (List.mem_cons_of_mem _)
    rw [collapse] at h
    split at h
    · exact (ih h).imp_right (List.mem_cons_of_mem _)
    split at h
    · obtain h | h := List.mem_cons.1 h
      · exact .inl h
      obtain rfl | h := List.mem_cons.1 h
      · exact .inr List.mem_cons_self
      · exact hrest h
    · obtain rfl | h := List.mem_cons.1 h
      · exact .inr List.mem_cons_self
      · exact hrest h

theorem collapse_collapse (gap gap' : Bool) (run : TokenRun) :
    collapse gap (collapse gap' run) = collapse (gap || gap') run := by
  induction run generalizing gap gap' with
  | nil => rfl
  | cons token run ih =>
    cases htrivia : token.isTrivia with
    | true => rw [collapse_trivia htrivia, collapse_trivia htrivia, ih, Bool.or_true]
    | false =>
      have hrest : collapse false (collapse false run) = collapse false run := ih false false
      rw [collapse_token htrivia, collapse_token htrivia]
      cases gap' with
      | true =>
        rw [if_pos rfl, collapse_trivia rfl, collapse_token htrivia, hrest, Bool.or_true]
      | false =>
        rw [if_neg Bool.false_ne_true, collapse_token htrivia, hrest, Bool.or_false]

theorem isTrivia_getLast?_collapse {gap : Bool} {run : TokenRun} {token : Token}
    (h : token ∈ (collapse gap run).getLast?) : token.isTrivia = false := by
  induction run generalizing gap with
  | nil => simp [collapse] at h
  | cons first run ih =>
    rw [collapse] at h
    split at h
    · exact ih h
    rename_i hfirst
    have hrest : token ∈ (first :: collapse false run).getLast? → token.isTrivia = false := by
      intro hmem
      rw [List.getLast?_cons] at hmem
      cases hlast : (collapse false run).getLast? with
      | none =>
        rw [hlast] at hmem
        obtain rfl := Option.some.inj hmem
        exact Bool.eq_false_iff.2 hfirst
      | some last =>
        rw [hlast] at hmem
        obtain rfl := Option.some.inj hmem
        exact ih hlast
    split at h
    · rw [List.getLast?_cons_cons] at h
      exact hrest h
    · exact hrest h

theorem next?_collapse (gap : Bool) (lexemes : List Lexeme) :
    next? (toLexemes (collapse gap (tokens lexemes))) =
      (next? lexemes).map fun (token, rest) =>
        (token, toLexemes (collapse false (tokens rest))) := by
  induction lexemes generalizing gap with
  | nil => rfl
  | cons lexeme lexemes ih =>
    rw [tokens, List.map_cons]
    cases htrivia : lexeme.isTrivia with
    | true =>
      rw [collapse_trivia htrivia, next?_of_isTrivia htrivia]
      exact ih true
    | false =>
      rw [collapse_token htrivia, next?_of_not_isTrivia htrivia]
      cases gap with
      | true =>
        rw [if_pos rfl, toLexemes_cons, next?_of_isTrivia rfl, toLexemes_cons]
        exact next?_of_not_isTrivia htrivia _
      | false => exact next?_of_not_isTrivia htrivia _

/-! ### Runs that are made of their own tokens -/

structure IsNormal (run : TokenRun) : Prop where
  kept : ∀ token ∈ run, isKept token = true
  collapsed : collapse false run = run
  head : ∀ token ∈ run.head?, token.isTrivia = false
  last : ∀ token ∈ run.getLast?, token.isTrivia = false

theorem isNormal_ofLexemes (lexemes : List Lexeme) : (ofLexemes lexemes).IsNormal where
  kept := by
    intro token hmem
    obtain rfl | hmem := mem_collapse hmem
    · rfl
    · exact (List.mem_filter.1 ((List.dropWhile_sublist _).subset hmem)).2
  collapsed := collapse_collapse ..
  head := by
    intro token hmem
    have hhead := List.head?_dropWhile_not Token.isTrivia ((tokens lexemes).filter isKept)
    rw [ofLexemes] at hmem
    cases hrun : ((tokens lexemes).filter isKept).dropWhile Token.isTrivia with
    | nil =>
      rw [hrun] at hmem
      contradiction
    | cons first run =>
      rw [hrun, List.head?_cons] at hhead
      have hfirst : first.isTrivia = false := by simpa using hhead
      rw [hrun, collapse, if_neg (by simp [hfirst]), if_neg Bool.false_ne_true] at hmem
      obtain rfl := Option.some.inj hmem
      exact hfirst
  last := fun _ => isTrivia_getLast?_collapse

namespace IsNormal

variable {run : TokenRun}

theorem isTrivia_head (h : run.IsNormal) :
    ∀ lexeme ∈ run.toLexemes.head?, lexeme.isTrivia = false := by
  intro lexeme hmem
  rw [toLexemes, List.head?_map] at hmem
  obtain ⟨token, htoken, rfl⟩ := Option.map_eq_some_iff.1 hmem
  exact h.head token htoken

theorem isTrivia_last (h : run.IsNormal) :
    ∀ lexeme ∈ run.toLexemes.getLast?, lexeme.isTrivia = false := by
  intro lexeme hmem
  rw [toLexemes, List.getLast?_map] at hmem
  obtain ⟨token, htoken, rfl⟩ := Option.map_eq_some_iff.1 hmem
  exact h.last token htoken

theorem trim_toLexemes (h : run.IsNormal) : trim run.toLexemes = run.toLexemes :=
  trim_eq_self h.isTrivia_head h.isTrivia_last

theorem dropWhile_eq_self (h : run.IsNormal) : run.dropWhile Token.isTrivia = run := by
  cases run with
  | nil => rfl
  | cons token run => exact List.dropWhile_cons_of_neg (by simp [h.head token rfl])

theorem ofLexemes_toLexemes (h : run.IsNormal) : ofLexemes run.toLexemes = run := by
  rw [ofLexemes, tokens_toLexemes, List.filter_eq_self.2 h.kept, h.dropWhile_eq_self, h.collapsed]

/-- A space in front of a run is left out. -/
theorem ofLexemes_space (h : run.IsNormal) : ofLexemes (toLexemes (.whitespace :: run)) = run := by
  rw [ofLexemes, tokens_toLexemes, List.filter_cons_of_pos rfl, List.dropWhile_cons_of_pos rfl,
    List.filter_eq_self.2 h.kept, h.dropWhile_eq_self, h.collapsed]

end IsNormal

/-- The run of lexemes that all have a place in it. -/
theorem ofLexemes_eq_collapse {lexemes : List Lexeme}
    (h : ∀ lexeme ∈ lexemes, isKept lexeme.token = true) :
    ofLexemes lexemes = collapse false (tokens (dropTrivia lexemes)) := by
  have hkept : (tokens lexemes).filter isKept = tokens lexemes := by
    rw [List.filter_eq_self, tokens]
    intro token hmem
    obtain ⟨lexeme, hlexeme, rfl⟩ := List.mem_map.1 hmem
    exact h lexeme hlexeme
  rw [ofLexemes, hkept, tokens, List.dropWhile_map, tokens]
  rfl

/-! ### Trivia at both ends -/

theorem collapse_append_trivia {after : TokenRun} (h : ∀ token ∈ after, token.isTrivia = true)
    (gap : Bool) (run : TokenRun) : collapse gap (run ++ after) = collapse gap run := by
  induction run generalizing gap with
  | nil =>
    induction after generalizing gap with
    | nil => rfl
    | cons token after ih =>
      obtain ⟨htoken, hrest⟩ := List.forall_mem_cons.1 h
      rw [List.nil_append, collapse_trivia htoken]
      exact ih hrest true
  | cons token run ih => simp only [List.cons_append, collapse, ih]

theorem ofLexemes_append_void {before after : List Lexeme} (hbefore : isVoid before = true)
    (hafter : isVoid after = true) (lexemes : List Lexeme) :
    ofLexemes (before ++ (lexemes ++ after)) = ofLexemes lexemes := by
  have htrivia : ∀ {trivia : List Lexeme}, isVoid trivia = true →
      ∀ token ∈ (tokens trivia).filter isKept, token.isTrivia = true := by
    intro trivia hvoid token hmem
    obtain ⟨lexeme, hlexeme, rfl⟩ := List.mem_map.1 (List.mem_filter.1 hmem).1
    exact List.all_eq_true.1 hvoid lexeme hlexeme
  have hfilter : (tokens (before ++ (lexemes ++ after))).filter isKept =
      (tokens before).filter isKept ++
        ((tokens lexemes).filter isKept ++ (tokens after).filter isKept) := by simp [tokens]
  rw [ofLexemes, ofLexemes, hfilter, List.dropWhile_append_of_pos (htrivia hbefore),
    List.dropWhile_append]
  split
  · rename_i hempty
    rw [List.dropWhile_eq_nil_iff.2 (htrivia hafter), List.isEmpty_iff.1 hempty]
  · exact collapse_append_trivia (htrivia hafter) ..

theorem ofLexemes_trim (lexemes : List Lexeme) : ofLexemes (trim lexemes) = ofLexemes lexemes := by
  obtain ⟨before, after, heq, hbefore, hafter⟩ := exists_trim lexemes
  conv => rhs; rw [heq]
  exact (ofLexemes_append_void hbefore hafter _).symm

theorem next?_ofLexemes {lexemes : List Lexeme}
    (h : ∀ lexeme ∈ lexemes, isKept lexeme.token = true) :
    next? (ofLexemes lexemes).toLexemes =
      (next? lexemes).map fun (token, rest) =>
        (token, toLexemes (collapse false (tokens rest))) := by
  rw [ofLexemes_eq_collapse h, next?_collapse, next?_dropTrivia]

/-! ### What a run keeps -/

theorem mem_collapse_of_mem {gap : Bool} {run : TokenRun} {token : Token} (h : token ∈ run)
    (htrivia : token.isTrivia = false) : token ∈ collapse gap run := by
  induction run generalizing gap with
  | nil => contradiction
  | cons first run ih =>
    obtain rfl | hmem := List.mem_cons.1 h
    · rw [collapse_token htrivia]
      cases gap with
      | true => exact List.mem_cons_of_mem _ List.mem_cons_self
      | false => exact List.mem_cons_self
    · rw [collapse]
      split
      · exact ih hmem
      split
      · exact List.mem_cons_of_mem _ (List.mem_cons_of_mem _ (ih hmem))
      · exact List.mem_cons_of_mem _ (ih hmem)

/-- A token that is no trivia is in the run of its lexemes. -/
theorem mem_ofLexemes {lexemes : List Lexeme} {token : Token} (h : token ∈ tokens lexemes)
    (hkept : isKept token = true) (htrivia : token.isTrivia = false) :
    token ∈ ofLexemes lexemes := by
  refine mem_collapse_of_mem ?_ htrivia
  have hmem : token ∈ (tokens lexemes).filter isKept := List.mem_filter.2 ⟨h, hkept⟩
  rw [← List.takeWhile_append_dropWhile (p := Token.isTrivia)
    (l := (tokens lexemes).filter isKept)] at hmem
  refine (List.mem_append.1 hmem).resolve_left fun hfront => ?_
  have := List.all_eq_true.1 List.all_takeWhile token hfront
  rw [htrivia] at this
  contradiction

theorem ofLexemes_ne_nil {lexemes : List Lexeme}
    (hkept : ∀ lexeme ∈ lexemes, isKept lexeme.token = true) (h : isVoid lexemes = false) :
    ofLexemes lexemes ≠ [] := by
  intro hnil
  have hnext := next?_ofLexemes hkept
  rw [hnil] at hnext
  have hnone : next? lexemes = none := Option.map_eq_none_iff.1 hnext.symm
  rw [next?_eq_none hnone] at h
  contradiction

/-! ### What trivia do not change -/

/-- What a token without a bracket does not change is the same for lexemes and their run. -/
theorem ofLexemes_congr {α : Type} {f : Nat → TokenRun → α}
    (hplain : ∀ {token : Token}, token.opens? = none → token.closes? = none →
      ∀ depth run, f depth (token :: run) = f depth run)
    (hcons : ∀ token {run run' : TokenRun}, (∀ depth, f depth run = f depth run') →
      ∀ depth, f depth (token :: run) = f depth (token :: run'))
    (lexemes : List Lexeme) (depth : Nat) :
    f depth (ofLexemes lexemes) = f depth (tokens lexemes) := by
  have htrivia : ∀ {token : Token}, token.isTrivia = true →
      ∀ depth run, f depth (token :: run) = f depth run := by
    intro token h
    cases token <;> first | exact hplain rfl rfl | contradiction
  have hfilter : ∀ (run : TokenRun) depth, f depth (run.filter isKept) = f depth run := by
    intro run
    induction run with
    | nil => exact fun _ => rfl
    | cons token run ih =>
      intro depth
      by_cases hkept : isKept token = true
      · rw [List.filter_cons_of_pos hkept]
        exact hcons token ih depth
      · have hnone : token.opens? = none ∧ token.closes? = none := by
          cases token <;> first | exact ⟨rfl, rfl⟩ | exact absurd rfl hkept
        rw [List.filter_cons_of_neg hkept, ih, hplain hnone.1 hnone.2]
  have hdrop : ∀ (run : TokenRun) depth, f depth (run.dropWhile Token.isTrivia) = f depth run := by
    intro run
    induction run with
    | nil => exact fun _ => rfl
    | cons token run ih =>
      intro depth
      cases h : token.isTrivia with
      | true => rw [List.dropWhile_cons_of_pos h, ih, htrivia h]
      | false => rw [List.dropWhile_cons_of_neg (by simp [h])]
  have hcollapse : ∀ (run : TokenRun) gap depth, f depth (collapse gap run) = f depth run := by
    intro run
    induction run with
    | nil => exact fun _ _ => rfl
    | cons token run ih =>
      intro gap depth
      rw [collapse]
      split
      · rw [ih, htrivia ‹_›]
      split
      · rw [htrivia rfl, hcons token (ih false)]
      · exact hcons token (ih false) depth
  rw [ofLexemes, hcollapse, hdrop, hfilter]

end TokenRun

end Css
