import Css.Proofs.Color.Shortest
import Css.Proofs.Stylesheet.Segment
import Css.Proofs.Value.Trivia

/-!
# The grammar of values

A value is a list of groups between commas, a group a sequence of components with trivia around
them, a component one token or a function with its argument (`Value.IsGroupList`). Reading cuts at
brackets and commas by counting; it accepts exactly this grammar, and finds the closing bracket of
every function it comes to (`Value.parse_iff_isGroupList`).
-/

namespace Css

/-! ### Hexadecimal colours -/

theorem exists_mapM_hexDigitValue? {digits : Text} (h : ∀ c ∈ digits, isHexDigit c = true) :
    ∃ values, digits.mapM hexDigitValue? = some values := by
  induction digits with
  | nil => exact ⟨[], rfl⟩
  | cons c digits ih =>
    obtain ⟨hc, hdigits⟩ := List.forall_mem_cons.1 h
    obtain ⟨values, hvalues⟩ := ih hdigits
    rw [← hexDigitValue?_isSome] at hc
    obtain ⟨n, hn⟩ := Option.isSome_iff_exists.1 hc
    exact ⟨n :: values, by rw [List.mapM_cons, hn, hvalues]; rfl⟩

/-- Three, four, six or eight hexadecimal digits denote a colour, and nothing else does. -/
theorem Rgba.ofHex?_isSome_iff {digits : Text} :
    (ofHex? digits).isSome = true ↔
      digits.length ∈ [3, 4, 6, 8] ∧ ∀ c ∈ digits, isHexDigit c = true := by
  constructor
  · intro h
    cases hvalues : digits.mapM hexDigitValue? with
    | none => simp [ofHex?, hvalues] at h
    | some values =>
      obtain ⟨hlength, hdigits⟩ := mapM_hexDigitValue?_eq_some hvalues
      refine ⟨?_, hdigits⟩
      rw [ofHex?, hvalues] at h
      rw [← hlength]
      split at h
      all_goals first
        | contradiction
        | (rename_i heq; obtain rfl := Option.some.inj heq; simp)
  · rintro ⟨hlength, hdigits⟩
    obtain ⟨values, hvalues⟩ := exists_mapM_hexDigitValue? hdigits
    rw [← (mapM_hexDigitValue?_eq_some hvalues).1] at hlength
    rw [ofHex?, hvalues]
    rcases values with _ | ⟨r, _ | ⟨g, _ | ⟨b, _ | ⟨a, _ | ⟨v₅, _ | ⟨v₆, _ | ⟨v₇, _ | ⟨v₈, _ |
      ⟨v₉, values⟩⟩⟩⟩⟩⟩⟩⟩⟩
    all_goals first
      | rfl
      | simp at hlength

namespace Value

open Lexeme

/-! ### The grammar -/

inductive IsComponent : Token → Prop
  | number (numeric : Numeric) : IsComponent (.number numeric)
  | percentage (numeric : Numeric) : IsComponent (.percentage numeric)
  | dimension (numeric : Numeric) (unit : Text) : IsComponent (.dimension numeric unit)
  | ident (name : Text) : IsComponent (.ident name)
  | string (content : Text) (quote : Quote) : IsComponent (.string content quote)
  | url (target : Text) : IsComponent (.url target)
  | hash {digits : Text} (isId : Bool) : digits.length ∈ [3, 4, 6, 8] →
    (∀ c ∈ digits, isHexDigit c = true) → IsComponent (.hash digits isId)
  | delim {c : Char} : c ∈ ['/', '+', '-', '*'] → IsComponent (.delim c)

mutual

inductive AreComponents : List Lexeme → Prop
  | nil : AreComponents []
  | trivia {lexeme : Lexeme} {lexemes : List Lexeme} : lexeme.isTrivia = true →
    AreComponents lexemes → AreComponents (lexeme :: lexemes)
  | token {lexeme : Lexeme} {lexemes : List Lexeme} : IsComponent lexeme.token →
    AreComponents lexemes → AreComponents (lexeme :: lexemes)
  | call {opener closer : Lexeme} {name : Text} {inner lexemes : List Lexeme} :
    opener.token = .function name → closer.token = .closing .round → IsArgument name inner →
    AreComponents lexemes → AreComponents (opener :: (inner ++ closer :: lexemes))

inductive IsGroupList : List Lexeme → Prop
  | one {group : List Lexeme} : AreComponents group → isVoid group = false → IsGroupList group
  | more {group lexemes : List Lexeme} {comma : Lexeme} : AreComponents group →
    isVoid group = false → comma.token = .comma → IsGroupList lexemes →
    IsGroupList (group ++ comma :: lexemes)

inductive IsArgument : (name : Text) → List Lexeme → Prop
  | url {name content : Text} {quote : Quote} {string : Lexeme} {before after : List Lexeme} :
    name.isKeyword "url" = true → string.token = .string content quote →
    isVoid before = true → isVoid after = true → IsArgument name (before ++ string :: after)
  | var {name property : Text} {reference : Lexeme} {before after : List Lexeme} :
    name.isKeyword "var" = true → reference.token = .ident ('-' :: '-' :: property) →
    isVoid before = true → isVoid after = true → IsArgument name (before ++ reference :: after)
  | varFallback {name property : Text} {reference comma : Lexeme}
      {before between fallback : List Lexeme} :
    name.isKeyword "var" = true → reference.token = .ident ('-' :: '-' :: property) →
    isVoid before = true → isVoid between = true → comma.token = .comma → Balanced fallback →
    IsArgument name (before ++ reference :: (between ++ comma :: fallback))
  | void {name : Text} {inner : List Lexeme} : name.isKeyword "url" = false →
    name.isKeyword "var" = false → isVoid inner = true → IsArgument name inner
  | groups {name : Text} {inner : List Lexeme} : name.isKeyword "url" = false →
    name.isKeyword "var" = false → IsGroupList inner → IsArgument name inner

end

theorem IsComponent.no_bracket {token : Token} (h : IsComponent token) :
    token.opens? = none ∧ token.closes? = none ∧ token.isTrivia = false ∧ token ≠ .comma := by
  cases h <;> exact ⟨rfl, rfl, rfl, Token.noConfusion⟩

theorem isComponent_iff {token : Token} :
    IsComponent token ↔ ∃ value, ofToken token = .ok value := by
  constructor
  · intro h
    cases h with
    | hash isId hlength hdigits =>
      obtain ⟨rgba, hrgba⟩ :=
        Option.isSome_iff_exists.1 (Rgba.ofHex?_isSome_iff.2 ⟨hlength, hdigits⟩)
      exact ⟨color (.hex _ rgba), by rw [ofToken, hrgba]⟩
    | delim hc =>
      simp only [List.mem_cons, List.not_mem_nil, or_false] at hc
      obtain rfl | rfl | rfl | rfl := hc <;> exact ⟨_, rfl⟩
    | _ => exact ⟨_, rfl⟩
  · rintro ⟨value, h⟩
    cases token with
    | hash digits isId =>
      rw [ofToken] at h
      split at h
      · rename_i hrgba
        obtain ⟨hlength, hdigits⟩ := Rgba.ofHex?_isSome_iff.1 (by rw [hrgba]; rfl)
        exact .hash isId hlength hdigits
      · contradiction
    | delim c =>
      rw [ofToken] at h
      split at h
      · rename_i hsign
        refine .delim ?_
        unfold Delimiter.ofChar? at hsign
        split at hsign <;> first | contradiction | decide
      · contradiction
    | _ => first | contradiction | constructor

/-! ### Balance -/

mutual

theorem AreComponents.balanced {lexemes : List Lexeme} : AreComponents lexemes → Balanced lexemes
  | .nil => .nil
  | .trivia htrivia hrest =>
    .plain (Token.opens?_of_isTrivia htrivia) (Token.closes?_of_isTrivia htrivia) hrest.balanced
  | .token htoken hrest =>
    have hplain := htoken.no_bracket
    .plain hplain.1 hplain.2.1 hrest.balanced
  | .call hopener hcloser hinner hrest =>
    .block (Token.opens?_of_function hopener) (Token.closes?_eq_some.2 hcloser) hinner.balanced
      hrest.balanced

theorem IsGroupList.balanced {lexemes : List Lexeme} : IsGroupList lexemes → Balanced lexemes
  | .one hgroup _ => hgroup.balanced
  | .more hgroup _ hcomma hrest =>
    hgroup.balanced.append (.plain (by rw [hcomma]; rfl) (by rw [hcomma]; rfl) hrest.balanced)

theorem IsArgument.balanced {name : Text} {inner : List Lexeme} :
    IsArgument name inner → Balanced inner
  | .url _ hstring hbefore hafter =>
    (Balanced.of_isVoid hbefore).append
      (.plain (by rw [hstring]; rfl) (by rw [hstring]; rfl) (.of_isVoid hafter))
  | .var _ hreference hbefore hafter =>
    (Balanced.of_isVoid hbefore).append
      (.plain (by rw [hreference]; rfl) (by rw [hreference]; rfl) (.of_isVoid hafter))
  | .varFallback _ hreference hbefore hbetween hcomma hfallback =>
    (Balanced.of_isVoid hbefore).append
      (.plain (by rw [hreference]; rfl) (by rw [hreference]; rfl)
        ((Balanced.of_isVoid hbetween).append
          (.plain (by rw [hcomma]; rfl) (by rw [hcomma]; rfl) hfallback)))
  | .void _ _ hvoid => .of_isVoid hvoid
  | .groups _ _ hgroups => hgroups.balanced

end

/-! ### Reading accepts nothing else -/

theorem items_eq_nil_iff {lexemes : List Lexeme} {items : List Value}
    (h : parseItems lexemes = .ok items) : items = [] ↔ isVoid lexemes = true := by
  induction lexemes with
  | nil =>
    rw [parseItems_nil] at h
    obtain rfl := Except.ok.inj h
    exact ⟨fun _ => rfl, fun _ => rfl⟩
  | cons lexeme lexemes ih =>
    rw [parseItems_cons] at h
    rw [isVoid, List.all_cons]
    cases htrivia : lexeme.isTrivia with
    | true =>
      rw [if_pos htrivia] at h
      exact ih h
    | false =>
      rw [htrivia, if_neg Bool.false_ne_true] at h
      have hsome : ∃ item more, items = item :: more := by
        split at h
        · cases hcut : cutBlock? lexemes with
          | none => rw [hcut] at h; contradiction
          | some block =>
            rw [hcut] at h
            obtain ⟨item, more, -, -, rfl⟩ := exists_of_cons_eq_ok h
            exact ⟨item, more, rfl⟩
        · obtain ⟨item, more, -, -, rfl⟩ := exists_of_cons_eq_ok h
          exact ⟨item, more, rfl⟩
      obtain ⟨item, more, rfl⟩ := hsome
      simp

def AcceptsOnly {α : Type} (form : Prop) : Except ValueError α → Prop
  | .ok _ => form
  | .error error => error ≠ .unbalanced

namespace AcceptsOnly

variable {α β : Type} {form form' form'' : Prop}

theorem empty : AcceptsOnly form (.error .empty : Except ValueError α) :=
  ValueError.noConfusion

theorem unsupported : AcceptsOnly form (.error .unsupported : Except ValueError α) :=
  ValueError.noConfusion

theorem imp {read : Except ValueError α} (h : AcceptsOnly form read) (himp : form → form') :
    AcceptsOnly form' read := by
  cases read with
  | ok value => exact himp h
  | error error => exact h

theorem map {read : Except ValueError α} (h : AcceptsOnly form read) (f : α → β) :
    AcceptsOnly form (read.map f) := by
  cases read with
  | ok value => exact h
  | error error => exact h

/-- The items behind one are read only where that one is. -/
theorem cons {head : Except ValueError α} {tail : Except ValueError (List α)}
    (hhead : AcceptsOnly form head) (htail : form → AcceptsOnly form' tail)
    (h : form → form' → form'') :
    AcceptsOnly form'' (do return (← head) :: (← tail) : Except ValueError (List α)) := by
  cases head with
  | error error => exact hhead
  | ok item => exact ((htail hhead).imp (h hhead)).map (item :: ·)

end AcceptsOnly

theorem acceptsOnly_ofToken (token : Token) : AcceptsOnly (IsComponent token) (ofToken token) := by
  cases hread : ofToken token with
  | ok value => exact isComponent_iff.2 ⟨value, hread⟩
  | error error =>
    have hunsupported : error = .unsupported := by
      unfold ofToken at hread
      split at hread <;> first
        | contradiction
        | (split at hread <;> first | contradiction | exact (Except.error.inj hread).symm)
        | exact (Except.error.inj hread).symm
    rw [hunsupported]
    exact .unsupported

theorem acceptsOnly_parseQuotedUrl {name : Text} (hname : name.isKeyword "url" = true)
    (inner : List Lexeme) : AcceptsOnly (IsArgument name inner) (parseQuotedUrl inner) := by
  unfold parseQuotedUrl
  split
  · rename_i hnext
    split
    · rename_i hvoid
      obtain ⟨front, lexeme, rfl, htoken, -, hfront⟩ := exists_of_next? hnext
      exact .url hname htoken (List.all_eq_true.2 hfront) hvoid
    · exact .unsupported
  · exact .unsupported

theorem balanced_of_cutVariable {inner fallback : List Lexeme} {property : Text}
    (h : cutVariable inner = .ok (property, some fallback)) (hbalanced : Balanced inner) :
    Balanced fallback := by
  unfold cutVariable at h
  split at h
  · contradiction
  · rename_i rest hreference
    split at h
    · simp at h
    · rename_i hcomma
      obtain ⟨-, hfallback⟩ := Prod.mk.inj (Except.ok.inj h)
      obtain rfl := Option.some.inj hfallback
      exact (hbalanced.of_next? hreference rfl).of_next? hcomma rfl
    · contradiction
  · contradiction

/-- What `var(` holds starts with the name of a custom property, and a comma stands in front of what
it falls back on. -/
theorem acceptsOnly_cutVariable {name : Text} (hname : name.isKeyword "var" = true)
    {inner : List Lexeme} (hbalanced : Balanced inner) :
    AcceptsOnly (IsArgument name inner) (cutVariable inner) := by
  unfold cutVariable
  split
  · exact .empty
  · rename_i property rest hreference
    obtain ⟨before, reference, rfl, htoken, -, hbefore⟩ := exists_of_next? hreference
    split
    · rename_i hend
      exact .var hname htoken (List.all_eq_true.2 hbefore) (next?_eq_none hend)
    · rename_i fallback hcomma
      have hfallback := (hbalanced.of_next? hreference rfl).of_next? hcomma rfl
      obtain ⟨between, comma, rfl, hcomma, -, hbetween⟩ := exists_of_next? hcomma
      exact .varFallback hname htoken (List.all_eq_true.2 hbefore) (List.all_eq_true.2 hbetween)
        hcomma hfallback
    · exact .unsupported
  · exact .unsupported

def parseGroup (group : List Lexeme) : Except ValueError Value := do
  let items ← parseItems group
  if items.isEmpty then .error .empty else return spaceList items

theorem parseGroups_cons_eq (group : List Lexeme) (groups : List (List Lexeme)) :
    parseGroups (group :: groups) =
      do return (← parseGroup group) :: (← parseGroups groups) := by
  rw [parseGroups_cons, parseGroup]
  cases parseItems group with
  | error error => rfl
  | ok items =>
    simp only [bind, Except.bind]
    split <;> rfl

theorem parseGroup_eq {group : List Lexeme} {items : List Value}
    (h : parseItems group = .ok items) :
    parseGroup group = if isVoid group then .error .empty else .ok (spaceList items) := by
  have hnil := items_eq_nil_iff h
  rw [parseGroup, h]
  cases hvoid : isVoid group with
  | true =>
    rw [hnil.2 hvoid]
    rfl
  | false =>
    cases items with
    | nil =>
      rw [hnil.1 rfl] at hvoid
      contradiction
    | cons item items => rfl

theorem acceptsOnly_parseGroup {group : List Lexeme}
    (h : AcceptsOnly (AreComponents group) (parseItems group)) :
    AcceptsOnly (AreComponents group ∧ isVoid group = false) (parseGroup group) := by
  cases hread : parseItems group with
  | error error =>
    rw [hread] at h
    rw [parseGroup, hread]
    exact h
  | ok items =>
    rw [hread] at h
    rw [parseGroup_eq hread]
    cases hvoid : isVoid group with
    | true => exact .empty
    | false => exact ⟨h, rfl⟩

mutual

theorem acceptsOnly_parseItems {lexemes : List Lexeme} (h : Balanced lexemes) :
    AcceptsOnly (AreComponents lexemes) (parseItems lexemes) := by
  match lexemes with
  | [] =>
    rw [parseItems_nil]
    exact .nil
  | lexeme :: lexemes =>
    rw [parseItems_cons]
    cases htrivia : lexeme.isTrivia with
    | true =>
      have hrest : Balanced lexemes := h.of_plain (Token.opens?_of_isTrivia htrivia)
      rw [if_pos rfl]
      exact (acceptsOnly_parseItems hrest).imp (.trivia htrivia)
    | false =>
      rw [if_neg Bool.false_ne_true]
      split
      · rename_i name htoken
        have hopens := Token.opens?_of_function htoken
        obtain ⟨block, hcut, hcloses⟩ := h.exists_cutBlock? hopens
        obtain ⟨hinner, hrest⟩ := h.of_cutBlock? hopens hcut
        have hlength := length_of_cutBlock? hcut
        rw [hcut, cutBlock?_eq_some hcut]
        exact (acceptsOnly_parseCall name hinner).cons (fun _ => acceptsOnly_parseItems hrest)
          (.call htoken (Token.closes?_eq_some.1 hcloses))
      · refine (acceptsOnly_ofToken lexeme.token).cons (fun hcomponent => ?_) .token
        exact acceptsOnly_parseItems (h.of_plain hcomponent.no_bracket.1)
termination_by 2 * lexemes.length

theorem acceptsOnly_parseGroups {lexemes : List Lexeme} (h : Balanced lexemes) :
    AcceptsOnly (IsGroupList lexemes) (parseGroups (splitCommas lexemes).toList) := by
  obtain hone | ⟨group, comma, rest, rfl, hcomma, hmore⟩ := splitCommasFrom_cases 0 lexemes
  · rw [splitCommas, hone, parseGroups_cons_eq, parseGroups_nil]
    exact (acceptsOnly_parseGroup (acceptsOnly_parseItems h)).cons (fun _ => trivial)
      fun hgroup (_ : True) => .one hgroup.1 hgroup.2
  · have hgroup : Balanced group := h.of_mem_splitCommas group (by
      rw [splitCommas, hmore]
      exact List.mem_cons_self)
    have hrest : Balanced rest := (h.of_append hgroup).of_plain (by rw [hcomma]; rfl)
    rw [splitCommas, hmore, parseGroups_cons_eq]
    exact (acceptsOnly_parseGroup (acceptsOnly_parseItems hgroup)).cons
      (fun _ => acceptsOnly_parseGroups hrest)
      fun hgroup hgroups => .more hgroup.1 hgroup.2 hcomma hgroups
termination_by 2 * lexemes.length + 2

theorem acceptsOnly_parseCall (name : Text) {inner : List Lexeme} (h : Balanced inner) :
    AcceptsOnly (IsArgument name inner) (parseCall name inner) := by
  cases hurl : name.isKeyword "url" with
  | true =>
    rw [parseCall_eq, if_pos hurl]
    exact acceptsOnly_parseQuotedUrl hurl inner
  | false =>
    cases hvar : name.isKeyword "var" with
    | true =>
      rw [parseCall_eq_var hurl hvar]
      exact (acceptsOnly_cutVariable hvar h).map _
    | false =>
      rw [parseCall_eq, hurl, hvar, if_neg Bool.false_ne_true, if_neg Bool.false_ne_true]
      split
      · exact .void hurl hvar ‹_›
      · exact ((acceptsOnly_parseGroups h).imp (.groups hurl hvar)).map (call name)
termination_by 2 * inner.length + 3

end

/-! ### Reading accepts all of it -/

theorem AreComponents.passesCommas {lexemes : List Lexeme} (h : AreComponents lexemes) :
    PassesCommas lexemes := by
  match h with
  | .nil => exact .nil
  | @AreComponents.trivia lexeme lexemes htrivia hrest =>
    have hcomma : lexeme.token ≠ .comma := by
      intro htoken
      rw [Lexeme.isTrivia, htoken] at htrivia
      contradiction
    exact .plain (Token.opens?_of_isTrivia htrivia) (Token.closes?_of_isTrivia htrivia) hcomma
      hrest.passesCommas
  | .token htoken hrest =>
    obtain ⟨hopens, hcloses, -, hcomma⟩ := htoken.no_bracket
    exact .plain hopens hcloses hcomma hrest.passesCommas
  | .call hopener hcloser hinner hrest =>
    exact .brackets (Token.opens?_of_function hopener) (Token.closes?_eq_some.2 hcloser)
      hinner.balanced.isClosed hrest.passesCommas

/-- Behind trivia the next token is the one that is none. -/
theorem next?_append_cons {before : List Lexeme} (h : isVoid before = true) {lexeme : Lexeme}
    (htrivia : lexeme.isTrivia = false) (lexemes : List Lexeme) :
    next? (before ++ lexeme :: lexemes) = some (lexeme.token, lexemes) := by
  rw [next?_void_append h, next?_of_not_isTrivia htrivia]

theorem next?_of_isVoid {lexemes : List Lexeme} (h : isVoid lexemes = true) :
    next? lexemes = none := by
  rw [← next?_dropTrivia, dropTrivia_of_isVoid h]
  rfl

theorem isKeyword_url_of_var {name : Text} (h : name.isKeyword "var" = true) :
    name.isKeyword "url" = false := by
  rw [Text.isKeyword, beq_iff_eq] at h
  rw [Text.isKeyword, h]
  decide

mutual

theorem AreComponents.exists_items {lexemes : List Lexeme} :
    AreComponents lexemes → ∃ items, parseItems lexemes = .ok items
  | .nil => ⟨[], parseItems_nil⟩
  | .trivia htrivia hrest => by
    obtain ⟨items, hitems⟩ := hrest.exists_items
    exact ⟨items, by rw [parseItems_cons, if_pos htrivia, hitems]⟩
  | @AreComponents.token lexeme lexemes htoken hrest => by
    obtain ⟨value, hvalue⟩ := isComponent_iff.1 htoken
    obtain ⟨items, hitems⟩ := hrest.exists_items
    have htrivia : lexeme.isTrivia = false := htoken.no_bracket.2.2.1
    refine ⟨value :: items, ?_⟩
    rw [parseItems_cons, htrivia, if_neg Bool.false_ne_true]
    split
    · rename_i name hname
      rw [hname] at hvalue
      contradiction
    · rw [hvalue, hitems]
      rfl
  | @AreComponents.call opener closer name inner lexemes hopener hcloser hinner hrest => by
    obtain ⟨value, hvalue⟩ := hinner.exists_value
    obtain ⟨items, hitems⟩ := hrest.exists_items
    have htrivia : opener.isTrivia = false := by rw [Lexeme.isTrivia, hopener]; rfl
    have hcut := cutBlock?_append_of_isClosed hinner.balanced.isClosed
      (Token.closes?_eq_some.2 hcloser) lexemes
    refine ⟨value :: items, ?_⟩
    rw [parseItems_cons, htrivia, if_neg Bool.false_ne_true, hopener, hcut]
    simp only [hvalue, hitems]
    rfl

theorem IsGroupList.exists_values {lexemes : List Lexeme} :
    IsGroupList lexemes → ∃ values, parseGroups (splitCommas lexemes).toList = .ok values
  | .one hgroup hvoid => by
    obtain ⟨items, hitems⟩ := hgroup.exists_items
    refine ⟨[spaceList items], ?_⟩
    rw [hgroup.passesCommas.splitCommas_eq, Groups.toList, parseGroups_cons_eq,
      parseGroup_eq hitems, hvoid, parseGroups_nil]
    rfl
  | .more hgroup hvoid hcomma hrest => by
    obtain ⟨items, hitems⟩ := hgroup.exists_items
    obtain ⟨values, hvalues⟩ := hrest.exists_values
    refine ⟨spaceList items :: values, ?_⟩
    rw [hgroup.passesCommas.splitCommas_comma hcomma, parseGroups_cons_eq, parseGroup_eq hitems,
      hvoid, hvalues]
    rfl

theorem IsArgument.exists_value {name : Text} {inner : List Lexeme} :
    IsArgument name inner → ∃ value, parseCall name inner = .ok value
  | @IsArgument.url name content quote lexeme before after hname hstring hbefore hafter => by
    have hnext := next?_append_cons hbefore (by rw [Lexeme.isTrivia, hstring]; rfl) after
    rw [hstring] at hnext
    refine ⟨url content, ?_⟩
    rw [parseCall_eq, if_pos hname, parseQuotedUrl, hnext]
    exact if_pos hafter
  | @IsArgument.var name property reference before after hname hreference hbefore hafter => by
    have hnext := next?_append_cons hbefore (by rw [Lexeme.isTrivia, hreference]; rfl) after
    rw [hreference] at hnext
    have hcut : cutVariable (before ++ reference :: after) =
        .ok ('-' :: '-' :: property, none) := by
      rw [cutVariable, hnext]
      simp only [next?_of_isVoid hafter]
    exact ⟨_, by rw [parseCall_eq_var (isKeyword_url_of_var hname) hname, hcut]; rfl⟩
  | @IsArgument.varFallback name property reference comma before between fallback hname hreference
      hbefore hbetween hcomma _ => by
    have hnext := next?_append_cons hbefore (by rw [Lexeme.isTrivia, hreference]; rfl)
      (between ++ comma :: fallback)
    have hbehind := next?_append_cons hbetween (by rw [Lexeme.isTrivia, hcomma]; rfl) fallback
    rw [hreference] at hnext
    rw [hcomma] at hbehind
    have hcut : cutVariable (before ++ reference :: (between ++ comma :: fallback)) =
        .ok ('-' :: '-' :: property, some fallback) := by
      rw [cutVariable, hnext]
      simp only [hbehind]
    exact ⟨_, by rw [parseCall_eq_var (isKeyword_url_of_var hname) hname, hcut]; rfl⟩
  | .void hurl hvar hvoid =>
    ⟨call name [], by
      rw [parseCall_eq, hurl, hvar, if_neg Bool.false_ne_true, if_neg Bool.false_ne_true,
        if_pos hvoid]⟩
  | @IsArgument.groups name inner hurl hvar hgroups => by
    obtain ⟨values, hvalues⟩ := hgroups.exists_values
    rw [parseCall_eq, hurl, hvar, if_neg Bool.false_ne_true, if_neg Bool.false_ne_true, hvalues]
    split
    · exact ⟨_, rfl⟩
    · exact ⟨_, rfl⟩

end

/-! ### The functions that reading comes to -/

/-- The runs that the reading of components comes to when it starts from some lexemes: the groups
of these, of what a function holds and of what `var()` falls back on, and what is left of a group
behind each component. -/
inductive Visits (lexemes : List Lexeme) : List Lexeme → Prop
  | start {group : List Lexeme} : group ∈ (splitCommas lexemes).toList → Visits lexemes group
  | trivia {lexeme : Lexeme} {rest : List Lexeme} : Visits lexemes (lexeme :: rest) →
    lexeme.isTrivia = true → Visits lexemes rest
  | component {lexeme : Lexeme} {rest : List Lexeme} {value : Value} :
    Visits lexemes (lexeme :: rest) → ofToken lexeme.token = .ok value → Visits lexemes rest
  | behind {opener : Lexeme} {name : Text} {rest : List Lexeme} {block : Block} :
    Visits lexemes (opener :: rest) → opener.token = .function name →
    cutBlock? rest = some block → Visits lexemes block.rest
  | inside {opener : Lexeme} {name : Text} {rest group : List Lexeme} {block : Block} :
    Visits lexemes (opener :: rest) → opener.token = .function name →
    cutBlock? rest = some block → group ∈ (splitCommas block.inner).toList → Visits lexemes group
  | fallback {opener : Lexeme} {name property : Text} {rest fallback group : List Lexeme}
      {block : Block} :
    Visits lexemes (opener :: rest) → opener.token = .function name →
    cutBlock? rest = some block → cutVariable block.inner = .ok (property, some fallback) →
    group ∈ (splitCommas fallback).toList → Visits lexemes group

theorem Visits.balanced {lexemes run : List Lexeme} (h : Visits lexemes run)
    (hbalanced : Balanced lexemes) : Balanced run := by
  induction h with
  | start hgroup => exact hbalanced.of_mem_splitCommas _ hgroup
  | trivia _ htrivia ih => exact ih.of_plain (Token.opens?_of_isTrivia htrivia)
  | component _ hvalue ih => exact ih.of_plain (isComponent_iff.2 ⟨_, hvalue⟩).no_bracket.1
  | behind _ hopener hcut ih => exact (ih.of_cutBlock? (Token.opens?_of_function hopener) hcut).2
  | inside _ hopener hcut hgroup ih =>
    exact (ih.of_cutBlock? (Token.opens?_of_function hopener) hcut).1.of_mem_splitCommas _ hgroup
  | fallback _ hopener hcut hvariable hgroup ih =>
    have hinner := (ih.of_cutBlock? (Token.opens?_of_function hopener) hcut).1
    exact (balanced_of_cutVariable hvariable hinner).of_mem_splitCommas _ hgroup

theorem Visits.exists_cutBlock? {lexemes rest : List Lexeme} {opener : Lexeme} {name : Text}
    (h : Visits lexemes (opener :: rest)) (hopener : opener.token = .function name)
    (hbalanced : Balanced lexemes) : ∃ block, cutBlock? rest = some block := by
  obtain ⟨block, hcut, -⟩ :=
    (h.balanced hbalanced).exists_cutBlock? (Token.opens?_of_function hopener)
  exact ⟨block, hcut⟩

/-! ### The grammar decides -/

/-- Lexemes are no value for an open bracket exactly when their brackets do not match. If they do,
the lexemes are a value exactly when they are a list of groups of components between commas, and
the end of every function that reading comes to is found. -/
theorem parse_iff_isGroupList (lexemes : List Lexeme) :
    (parse lexemes = .error .unbalanced ↔ isBalanced lexemes = false) ∧
      (isBalanced lexemes = true →
        ((∃ value, parse lexemes = .ok value) ↔ IsGroupList lexemes) ∧
        ∀ (opener : Lexeme) (rest : List Lexeme) (name : Text), Visits lexemes (opener :: rest) →
          opener.token = .function name → ∃ block, cutBlock? rest = some block) := by
  cases hbalanced : isBalanced lexemes with
  | false =>
    have hread : parse lexemes = .error .unbalanced := by rw [parse, hbalanced]; rfl
    exact ⟨⟨fun _ => rfl, fun _ => hread⟩, fun h => by contradiction⟩
  | true =>
    have hbrackets := isBalanced_iff.1 hbalanced
    have haccepts := acceptsOnly_parseGroups hbrackets
    refine ⟨⟨fun hread => ?_, fun h => by contradiction⟩, fun _ => ⟨⟨?_, ?_⟩, ?_⟩⟩
    · rw [parse, if_pos hbalanced] at hread
      cases hgroups : parseGroups (splitCommas lexemes).toList with
      | ok values =>
        rw [hgroups] at hread
        contradiction
      | error error =>
        rw [hgroups] at hread haccepts
        exact absurd (Except.error.inj hread) haccepts
    · rintro ⟨value, hread⟩
      obtain ⟨-, values, hvalues, -⟩ := exists_of_parse hread
      rw [hvalues] at haccepts
      exact haccepts
    · intro hgroups
      obtain ⟨values, hvalues⟩ := hgroups.exists_values
      exact ⟨ofGroups values, by rw [parse, if_pos hbalanced, hvalues]; rfl⟩
    · exact fun opener rest name hvisits hopener => hvisits.exists_cutBlock? hopener hbrackets

theorem parse_iff_isGroupList_fallback :
    let lexemes := TokenRun.toLexemes [.function "var".toList, .ident "--a".toList, .comma,
      .function ['f'], .ident ['b'], .closing .round, .closing .round]
    isBalanced lexemes = true ∧ IsGroupList lexemes ∧
      ∃ opener rest block, Visits lexemes (opener :: rest) ∧ opener.token = .function ['f'] ∧
        cutBlock? rest = some block := by
  intro lexemes
  have hbalanced : isBalanced lexemes = true := by decide +kernel
  obtain ⟨haccepts, hends⟩ := (parse_iff_isGroupList lexemes).2 hbalanced
  have hread : (parse lexemes).isOk = true := by decide +kernel
  have hvisits : Visits lexemes
      (TokenRun.toLexemes [.function ['f'], .ident ['b'], .closing .round]) :=
    .fallback (.start List.mem_cons_self) rfl rfl rfl List.mem_cons_self
  obtain ⟨block, hcut⟩ := hends _ _ ['f'] hvisits rfl
  refine ⟨hbalanced, haccepts.1 ?_, _, _, block, hvisits, rfl, hcut⟩
  cases hvalue : parse lexemes with
  | ok value => exact ⟨value, rfl⟩
  | error error =>
    rw [hvalue] at hread
    contradiction

end Value

end Css
