import Css.Proofs.Token.RawText
import Css.Proofs.Value.Reading

/-!
# Trivia around values

Trivia at both ends of a value do not matter (`Value.parse_append_void`), so what is kept as source
text because it is no value is kept as this text again when it is read with other trivia
(`Declaration.readValue_respaced`).
-/

namespace Css

namespace Lexeme

variable {before after : List Lexeme}

/-! ### Cutting -/

theorem next?_void_append (hbefore : isVoid before = true) (lexemes : List Lexeme) :
    next? (before ++ lexemes) = next? lexemes := by
  rw [← next?_dropTrivia, dropTrivia_append hbefore, next?_dropTrivia]

theorem next?_append_void (hafter : isVoid after = true) (lexemes : List Lexeme) :
    next? (lexemes ++ after) = (next? lexemes).map fun (token, rest) => (token, rest ++ after) := by
  induction lexemes with
  | nil =>
    rw [List.nil_append, ← List.append_nil after, next?_void_append hafter]
    rfl
  | cons lexeme lexemes ih =>
    rw [List.cons_append]
    cases htrivia : lexeme.isTrivia with
    | true => rw [next?_of_isTrivia htrivia, next?_of_isTrivia htrivia, ih]
    | false =>
      rw [next?_of_not_isTrivia htrivia, next?_of_not_isTrivia htrivia]
      rfl

theorem balanced_of_plain
    (h : ∀ lexeme ∈ before, lexeme.token.opens? = none ∧ lexeme.token.closes? = none) :
    Balanced before := by
  induction before with
  | nil => exact .nil
  | cons lexeme before ih =>
    obtain ⟨⟨hopens, hcloses⟩, hrest⟩ := List.forall_mem_cons.1 h
    exact .plain hopens hcloses (ih hrest)

theorem closesAll_append_plain
    (hafter : ∀ lexeme ∈ after, lexeme.token.opens? = none ∧ lexeme.token.closes? = none)
    (stack : List Bracket) (lexemes : List Lexeme) :
    closesAll stack (lexemes ++ after) = closesAll stack lexemes := by
  induction lexemes generalizing stack with
  | nil =>
    have hbehind := (balanced_of_plain hafter).closesAll_append stack []
    rwa [List.append_nil] at hbehind
  | cons lexeme lexemes ih => simp only [List.cons_append, closesAll, ih]

theorem isBalanced_append
    (hbefore : ∀ lexeme ∈ before, lexeme.token.opens? = none ∧ lexeme.token.closes? = none)
    (hafter : ∀ lexeme ∈ after, lexeme.token.opens? = none ∧ lexeme.token.closes? = none)
    (lexemes : List Lexeme) : isBalanced (before ++ (lexemes ++ after)) = isBalanced lexemes := by
  rw [isBalanced, (balanced_of_plain hbefore).closesAll_append, closesAll_append_plain hafter,
    isBalanced]

theorem isBalanced_trim (lexemes : List Lexeme) :
    isBalanced (trim lexemes) = isBalanced lexemes := by
  obtain ⟨before, after, heq, hbefore, hafter⟩ := exists_trim lexemes
  conv => rhs; rw [heq]
  exact (isBalanced_append (plain_of_isVoid hbefore) (plain_of_isVoid hafter) _).symm

theorem isVoid_trim (lexemes : List Lexeme) : isVoid (trim lexemes) = isVoid lexemes := by
  obtain ⟨before, after, heq, hbefore, hafter⟩ := exists_trim lexemes
  conv => rhs; rw [heq]
  rw [isVoid] at hbefore hafter
  simp [isVoid, hbefore, hafter]

theorem Respaced.isBalanced_eq {xs ys : List Lexeme} (h : Respaced xs ys) :
    isBalanced ys = isBalanced xs := by
  rw [← condense.isBalanced_map false, ← h.condense_eq, condense.isBalanced_map]

theorem Respaced.isVoid_eq {xs ys : List Lexeme} (h : Respaced xs ys) : isVoid ys = isVoid xs := by
  rw [← condense.isVoid_map false, ← h.condense_eq, condense.isVoid_map]

theorem cutBlockFrom?_of_isVoid (h : isVoid after = true) (depth : Nat) :
    cutBlockFrom? depth after = none := by
  have hplain := plain_of_isVoid h
  clear h
  induction after with
  | nil => rfl
  | cons blank after ih =>
    obtain ⟨⟨hopens, hcloses⟩, hrest⟩ := List.forall_mem_cons.1 hplain
    simp [cutBlockFrom?, hopens, hcloses, ih hrest]

/-- What a block holds does not depend on trivia at the end. -/
theorem cutBlockFrom?_append_void (hafter : isVoid after = true) (depth : Nat)
    (lexemes : List Lexeme) :
    cutBlockFrom? depth (lexemes ++ after) =
      (cutBlockFrom? depth lexemes).map fun block =>
        { block with rest := block.rest ++ after } := by
  induction lexemes generalizing depth with
  | nil => exact cutBlockFrom?_of_isVoid hafter depth
  | cons lexeme lexemes ih =>
    have hcons : ∀ depth, (cutBlockFrom? depth (lexemes ++ after)).map (Block.cons lexeme) =
        ((cutBlockFrom? depth lexemes).map (Block.cons lexeme)).map fun block =>
          { block with rest := block.rest ++ after } := by
      intro depth
      rw [ih]
      cases cutBlockFrom? depth lexemes <;> rfl
    simp only [List.cons_append, cutBlockFrom?]
    split
    · exact hcons _
    split
    · cases depth with
      | zero => rfl
      | succ depth => exact hcons _
    · exact hcons _

theorem splitCommasFrom_void_append (hbefore : isVoid before = true) (depth : Nat)
    (lexemes : List Lexeme) :
    splitCommasFrom depth (before ++ lexemes) = (splitCommasFrom depth lexemes).prepend before := by
  induction before with
  | nil => rfl
  | cons blank before ih =>
    obtain ⟨hopens, hcloses⟩ := plain_of_isVoid hbefore blank List.mem_cons_self
    rw [isVoid, List.all_cons, Bool.and_eq_true] at hbefore
    have hcomma : blank.token ≠ .comma := fun hcomma => by
      rw [Lexeme.isTrivia, hcomma] at hbefore
      exact absurd hbefore.1 Bool.false_ne_true
    rw [List.cons_append, splitCommasFrom_of_plain hopens hcloses (absurd · hcomma), ih hbefore.2,
      Groups.prepend_cons]

/-- Trivia at the end are a part of the last group. -/
theorem splitCommasFrom_append_void (hafter : isVoid after = true) (depth : Nat)
    (lexemes : List Lexeme) :
    List.Forall₂ (fun group group' => group' = group ∨ group' = group ++ after)
      (splitCommasFrom depth lexemes).toList (splitCommasFrom depth (lexemes ++ after)).toList := by
  induction lexemes generalizing depth with
  | nil =>
    have hgroup := splitCommasFrom_void_append hafter depth []
    rw [List.append_nil] at hgroup
    rw [List.nil_append, hgroup]
    exact .cons (.inr (List.append_nil after)) .nil
  | cons lexeme lexemes ih =>
    have hcons : ∀ depth,
        List.Forall₂ (fun group group' => group' = group ∨ group' = group ++ after)
          ((splitCommasFrom depth lexemes).cons lexeme).toList
          ((splitCommasFrom depth (lexemes ++ after)).cons lexeme).toList := by
      intro depth
      cases ih depth with
      | cons hfirst hmore =>
        refine .cons ?_ hmore
        exact hfirst.imp (congrArg (lexeme :: ·)) (congrArg (lexeme :: ·))
    simp only [List.cons_append, splitCommasFrom]
    split
    · exact hcons _
    split
    · exact hcons _
    split
    · exact .cons (.inl rfl) (ih depth)
    · exact hcons _

end Lexeme

namespace Value

open Lexeme

variable {before after : List Lexeme}

/-! ### Reading -/

theorem parseItems_void_append (hbefore : isVoid before = true) (lexemes : List Lexeme) :
    parseItems (before ++ lexemes) = parseItems lexemes := by
  induction before with
  | nil => rfl
  | cons blank before ih =>
    rw [isVoid, List.all_cons, Bool.and_eq_true] at hbefore
    rw [List.cons_append, parseItems_cons, if_pos hbefore.1, ih hbefore.2]

theorem parseItems_append_void (hafter : isVoid after = true) (lexemes : List Lexeme) :
    parseItems (lexemes ++ after) = parseItems lexemes := by
  cases lexemes with
  | nil =>
    rw [List.nil_append, ← List.append_nil after]
    exact parseItems_void_append hafter []
  | cons lexeme lexemes =>
    rw [List.cons_append, parseItems_cons, parseItems_cons, parseItems_append_void hafter lexemes,
      cutBlock?, cutBlockFrom?_append_void hafter, ← cutBlock?]
    split
    · rfl
    split
    · cases hcut : cutBlock? lexemes with
      | none => rfl
      | some block =>
        have hlength := length_of_cutBlock? hcut
        simp only [Option.map_some, parseItems_append_void hafter block.rest]
    · rfl
termination_by lexemes.length
decreasing_by all_goals (simp only [List.length_cons]; omega)

theorem parseGroups_congr {groups groups' : List (List Lexeme)}
    (h : List.Forall₂ (fun group group' => parseItems group' = parseItems group) groups groups') :
    parseGroups groups' = parseGroups groups := by
  induction h with
  | nil => rfl
  | cons hgroup _ ih => rw [parseGroups_cons, parseGroups_cons, hgroup, ih]

/-- Trivia at both ends of a value do not matter. -/
theorem parse_append_void (hbefore : isVoid before = true) (hafter : isVoid after = true)
    (lexemes : List Lexeme) : parse (before ++ (lexemes ++ after)) = parse lexemes := by
  have hgroups : parseGroups (splitCommas (before ++ (lexemes ++ after))).toList =
      parseGroups (splitCommas lexemes).toList := by
    refine parseGroups_congr ?_
    have hend : ∀ {group group' : List Lexeme}, group' = group ∨ group' = group ++ after →
        parseItems group' = parseItems group := by
      rintro group _ (rfl | rfl)
      · rfl
      · exact parseItems_append_void hafter group
    rw [splitCommas, splitCommas, splitCommasFrom_void_append hbefore]
    cases splitCommasFrom_append_void hafter 0 lexemes with
    | cons hfirst hmore =>
      exact .cons ((parseItems_void_append hbefore _).trans (hend hfirst))
        (hmore.imp fun _ _ => hend)
  rw [parse, isBalanced_append (plain_of_isVoid hbefore) (plain_of_isVoid hafter), hgroups, parse]

/-- What is no value is none where other trivia stand between its lexemes. -/
theorem exists_error_of_respaced {value ys : List Lexeme} (hys : Respaced (trim value) ys)
    {error : ValueError} (herror : parse value = .error error) :
    ∃ error, parse ys = .error error := by
  obtain ⟨front, back, heq, hfront, hback⟩ := exists_trim value
  have hmap : ∀ lexemes,
      (parse (condense.map false lexemes)).map (mapRaw fun _ => []) =
        (parse lexemes).map (mapRaw fun _ => []) := fun _ =>
    condense.value_map fun _ _ _ => rfl
  have hcondense := hmap ys
  rw [← hys.condense_eq, hmap, ← parse_append_void hfront hback, ← heq, herror] at hcondense
  cases hparse : parse ys with
  | error error => exact ⟨error, rfl⟩
  | ok read =>
    rw [hparse] at hcondense
    contradiction

/-! ### Source text -/

theorem isRaw_ofToken {token : Token} {value : Value} (h : ofToken token = .ok value) :
    value.isRaw = false := by
  unfold ofToken ofName at h
  split at h <;> try split at h
  all_goals first
    | contradiction
    | (obtain rfl := Except.ok.inj h; rfl)

/-- A function is read as a url, as a custom property or as a call. -/
theorem parseCall_cases {name : Text} {inner : List Lexeme} {value : Value}
    (h : parseCall name inner = .ok value) :
    (∃ target, value = url target) ∨ (∃ property fallback, value = var property fallback) ∨
      ∃ arguments, value = call name arguments := by
  rw [parseCall_eq] at h
  split at h
  · unfold parseQuotedUrl at h
    split at h
    · split at h
      · exact .inl ⟨_, (Except.ok.inj h).symm⟩
      · contradiction
    · contradiction
  split at h
  · split at h
    · contradiction
    · exact .inr (.inl ⟨_, _, (Except.ok.inj h).symm⟩)
    · split at h
      · exact .inr (.inl ⟨_, _, (Except.ok.inj h).symm⟩)
      · split at h <;> exact .inr (.inl ⟨_, _, (Except.ok.inj h).symm⟩)
  split at h
  · exact .inr (.inr ⟨[], (Except.ok.inj h).symm⟩)
  · obtain ⟨values, -, rfl⟩ := exists_of_map_eq_ok (f := call name) h
    exact .inr (.inr ⟨values, rfl⟩)

theorem isRaw_of_parseCall {name : Text} {inner : List Lexeme} {value : Value}
    (h : parseCall name inner = .ok value) : value.isRaw = false := by
  obtain ⟨target, rfl⟩ | ⟨property, fallback, rfl⟩ | ⟨arguments, rfl⟩ := parseCall_cases h
  · rfl
  · rfl
  · unfold call
    split <;> rfl

theorem ne_sign_of_parseCall {name : Text} {inner : List Lexeme} {value : Value}
    (h : parseCall name inner = .ok value) (sign : Delimiter) : value ≠ delimiter sign := by
  obtain ⟨target, rfl⟩ | ⟨property, fallback, rfl⟩ | ⟨arguments, rfl⟩ := parseCall_cases h
  · exact Value.noConfusion
  · exact Value.noConfusion
  · unfold call
    split <;> exact Value.noConfusion

theorem isRaw_of_parseItems {lexemes : List Lexeme} {items : List Value}
    (h : parseItems lexemes = .ok items) : ∀ item ∈ items, item.isRaw = false := by
  cases lexemes with
  | nil =>
    rw [parseItems_nil] at h
    obtain rfl := Except.ok.inj h
    exact List.forall_mem_nil _
  | cons lexeme lexemes =>
    have hcons : ∀ {first : Except ValueError Value} {rest : List Lexeme},
        rest.length ≤ lexemes.length → (∀ value, first = .ok value → value.isRaw = false) →
          (do return (← first) :: (← parseItems rest) : Except ValueError _) = .ok items →
            ∀ item ∈ items, item.isRaw = false := by
      intro first rest hlength hfirst h
      obtain ⟨value, more, hvalue, hitems, rfl⟩ := exists_of_cons_eq_ok h
      exact List.forall_mem_cons.2 ⟨hfirst value hvalue, isRaw_of_parseItems hitems⟩
    rw [parseItems_cons] at h
    split at h
    · exact isRaw_of_parseItems h
    split at h
    · cases hcut : cutBlock? lexemes with
      | none => rw [hcut] at h; contradiction
      | some block =>
        have hlength := length_of_cutBlock? hcut
        rw [hcut] at h
        exact hcons (by omega) (fun _ => isRaw_of_parseCall) h
    · exact hcons (Nat.le_refl _) (fun _ => isRaw_ofToken) h
termination_by lexemes.length
decreasing_by all_goals (subst_vars; simp only [List.length_cons]; omega)

theorem isRaw_of_parseGroups {groups : List (List Lexeme)} {values : List Value}
    (h : parseGroups groups = .ok values) : ∀ value ∈ values, value.isRaw = false := by
  induction groups generalizing values with
  | nil =>
    rw [parseGroups_nil] at h
    obtain rfl := Except.ok.inj h
    exact List.forall_mem_nil _
  | cons group groups ih =>
    obtain ⟨items, more, hitems, -, hvalues, rfl⟩ := exists_of_parseGroups_cons h
    refine List.forall_mem_cons.2 ⟨?_, ih hvalues⟩
    have hraw := isRaw_of_parseItems hitems
    rcases items with _ | ⟨item, _ | ⟨next, items⟩⟩
    · rfl
    · exact hraw item List.mem_cons_self
    · rfl

/-- What is read as a value is no source text as a whole. -/
theorem isRaw_of_parse {lexemes : List Lexeme} {value : Value} (h : parse lexemes = .ok value) :
    value.isRaw = false := by
  obtain ⟨-, values, hvalues, rfl⟩ := exists_of_parse h
  have hraw := isRaw_of_parseGroups hvalues
  rcases values with _ | ⟨value, _ | ⟨next, values⟩⟩
  · rfl
  · exact hraw value List.mem_cons_self
  · rfl

end Value

namespace Declaration

open Lexeme

variable {name : Text} {value : List Lexeme}

/-- A value is kept as source text if it is none, or if that of its property is not read. -/
theorem readValue_of_isRaw (h : (readValue name value).isRaw = true) :
    readValue name value = .raw (rawText value) ∧
      (Property.isKnown name = true → ∃ error, Value.parse value = .error error) := by
  unfold readValue at h ⊢
  split
  · rename_i hknown
    rw [if_pos hknown] at h
    cases hparse : Value.parse value with
    | ok read =>
      rw [hparse] at h
      exact absurd ((Value.isRaw_of_parse hparse).symm.trans h) Bool.false_ne_true
    | error error => exact ⟨rfl, fun _ => ⟨error, rfl⟩⟩
  · exact ⟨rfl, fun hknown => absurd hknown ‹_›⟩

/-- Source text that is kept as a value is kept again where other trivia stand between its lexemes
and around them. -/
theorem readValue_respaced (h : (readValue name value).isRaw = true)
    {ys before after : List Lexeme} (hys : Respaced (trim value) ys)
    (htext : text ys = rawText value) (hbefore : isVoid before = true)
    (hafter : isVoid after = true) :
    readValue name (before ++ (ys ++ after)) = readValue name value := by
  obtain ⟨hraw, hknown⟩ := readValue_of_isRaw h
  rw [hraw, ← htext, ← hys.rawText_append hbefore hafter, readValue]
  split
  · rename_i hname
    obtain ⟨error, herror⟩ := hknown hname
    obtain ⟨error, herror⟩ := Value.exists_error_of_respaced hys herror
    rw [Value.parse_append_void hbefore hafter, herror]
  · rfl

/-! ### Declarations -/

/-- What a declaration is read from. -/
theorem parse_eq_ok {isClosed : Bool} {lexemes : List Lexeme} {declaration : Declaration} :
    parse isClosed lexemes = .ok declaration ↔
      isClosed = true ∧ ∃ value, cutName lexemes = .ok (declaration.name, value) ∧
        isBalanced value = true ∧ (∀ lexeme ∈ value, lexeme.token.isBad = false) ∧
        (isVoid (cutImportant value).1 = true → Property.isCustom declaration.name = true) ∧
        declaration.value = readValue declaration.name (cutImportant value).1 ∧
        declaration.important = (cutImportant value).2 := by
  obtain ⟨name, read, important⟩ := declaration
  rw [parse]
  cases hname : cutName lexemes with
  | error error => simp [bind, Except.bind]
  | ok cut =>
    obtain ⟨name', value⟩ := cut
    have hbad : (value.any fun lexeme => lexeme.token.isBad) = false ↔
        ∀ lexeme ∈ value, lexeme.token.isBad = false := by simp
    have hvoid : (isVoid (cutImportant value).1 && !Property.isCustom name') = false ↔
        (isVoid (cutImportant value).1 = true → Property.isCustom name' = true) := by
      cases isVoid (cutImportant value).1 <;> simp
    simp only [bind, Except.bind, pure, Except.pure, Except.ok.injEq, Prod.mk.injEq]
    constructor
    · intro h
      split at h
      · contradiction
      rename_i hclosed
      split at h
      · contradiction
      rename_i hgood
      split at h
      · contradiction
      rename_i hfull
      obtain ⟨rfl, rfl, rfl⟩ := Declaration.mk.inj (Except.ok.inj h)
      simp only [Bool.or_eq_true, Bool.not_eq_true', not_or, Bool.not_eq_false] at hclosed
      exact ⟨hclosed.1, value, ⟨rfl, rfl⟩, hclosed.2, hbad.1 (Bool.eq_false_iff.2 hgood),
        hvoid.1 (Bool.eq_false_iff.2 hfull), rfl, rfl⟩
    · rintro ⟨rfl, value', ⟨rfl, rfl⟩, hbalanced, hgood, hfull, rfl, rfl⟩
      rw [hbalanced, hbad.2 hgood, hvoid.2 hfull]
      rfl

theorem cutImportant_eq_true_iff {value : List Lexeme} :
    (cutImportant value).2 = true ↔
      ∃ word between before, next? value.reverse = some (word, between) ∧
        next? between = some (.delim '!', before) ∧ word.isIdent "important" = true := by
  unfold cutImportant
  cases hword : next? value.reverse with
  | none => simp
  | some cut =>
    obtain ⟨word, between⟩ := cut
    simp only [Option.some.injEq, Prod.mk.injEq]
    split
    · rename_i before hbang
      split
      · rename_i himportant
        exact ⟨fun _ => ⟨word, between, before, ⟨rfl, rfl⟩, hbang, himportant⟩, fun _ => rfl⟩
      · rename_i himportant
        refine ⟨fun h => by contradiction, ?_⟩
        rintro ⟨_, _, _, ⟨rfl, rfl⟩, -, h⟩
        exact absurd h himportant
    · rename_i hbang
      refine ⟨fun h => by contradiction, ?_⟩
      rintro ⟨_, _, before, ⟨rfl, rfl⟩, h, -⟩
      exact absurd h (hbang before)

theorem cutImportant_of_eq_false (h : (cutImportant value).2 = false) :
    cutImportant value = (value, false) := by
  unfold cutImportant at h ⊢
  split
  · split
    · split
      · simp_all
      · rfl
    · rfl
  · rfl

/-- Trivia at both ends say nothing about `!important`. -/
theorem cutImportant_append {before after : List Lexeme} (hbefore : isVoid before = true)
    (hafter : isVoid after = true) (value : List Lexeme) :
    (cutImportant (before ++ (value ++ after))).2 = (cutImportant value).2 := by
  have hfront : isVoid before.reverse = true := by rwa [isVoid, List.all_reverse]
  have hback : isVoid after.reverse = true := by rwa [isVoid, List.all_reverse]
  have hnext : next? (before ++ (value ++ after)).reverse =
      (next? value.reverse).map fun (token, rest) => (token, rest ++ before.reverse) := by
    rw [List.reverse_append, List.reverse_append, List.append_assoc, next?_void_append hback,
      next?_append_void hfront]
  rw [Bool.eq_iff_iff, cutImportant_eq_true_iff, cutImportant_eq_true_iff, hnext]
  constructor
  · rintro ⟨word, between, front, hword, hbang, himportant⟩
    obtain ⟨⟨token, rest⟩, hrest, heq⟩ := Option.map_eq_some_iff.1 hword
    obtain ⟨rfl, rfl⟩ := Prod.mk.inj heq
    rw [next?_append_void hfront] at hbang
    obtain ⟨⟨bang, rest'⟩, hrest', heq'⟩ := Option.map_eq_some_iff.1 hbang
    obtain ⟨rfl, -⟩ := Prod.mk.inj heq'
    exact ⟨token, rest, rest', hrest, hrest', himportant⟩
  · rintro ⟨word, between, front, hword, hbang, himportant⟩
    refine ⟨word, _, front ++ before.reverse, by rw [hword]; rfl, ?_, himportant⟩
    rw [next?_append_void hfront, hbang]
    rfl

theorem cutImportant_concat {bang word : Lexeme} (hbang : bang.token = .delim '!')
    (hword : word.token.isIdent "important" = true) (value : List Lexeme) :
    cutImportant (value ++ [bang, word]) = (value, true) := by
  have hsolid : bang.isTrivia = false := by rw [Lexeme.isTrivia, hbang]; rfl
  have hsolid' : word.isTrivia = false := by
    rw [Lexeme.isTrivia]
    generalize word.token = token at hword
    cases token <;> first | rfl | contradiction
  have hreverse : next? (value ++ [bang, word]).reverse =
      some (word.token, bang :: value.reverse) := by
    rw [List.reverse_append]
    exact next?_of_not_isTrivia hsolid' _
  have hbefore := next?_of_not_isTrivia hsolid value.reverse
  rw [hbang] at hbefore
  simp only [cutImportant, hreverse, hbefore, hword, if_true, List.reverse_reverse]

/-- A value without `!important` is one where other trivia stand between its lexemes and around
them. -/
theorem cutImportant_respaced (h : (cutImportant value).2 = false) {ys before after : List Lexeme}
    (hys : Respaced (trim value) ys) (hbefore : isVoid before = true)
    (hafter : isVoid after = true) :
    cutImportant (before ++ (ys ++ after)) = (before ++ (ys ++ after), false) := by
  have hmap : ∀ lexemes, (cutImportant (condense.map false lexemes)).2 = (cutImportant lexemes).2 :=
    fun lexemes => by rw [condense.cutImportant_map]
  obtain ⟨front, back, heq, hfront, hback⟩ := exists_trim value
  rw [heq, cutImportant_append hfront hback, ← hmap, hys.condense_eq, hmap] at h
  exact cutImportant_of_eq_false ((cutImportant_append hbefore hafter ys).trans h)

end Declaration

end Css
