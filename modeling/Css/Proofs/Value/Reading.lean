import Css.Proofs.Token.Balanced
import Css.Proofs.Token.Recast
import Css.Proofs.Value.Raw
import Css.Stylesheet.Declaration

/-!
# How values and declarations are read

The reading of values, without the bounds that make it end; and what is read depends on the lexemes
only as far as a `Recast` keeps them, but for the raw texts in it.
-/

namespace Css

namespace Value

theorem parseItems_nil : parseItems [] = .ok [] := by
  rw [parseItems]

theorem parseItems_cons (lexeme : Lexeme) (lexemes : List Lexeme) :
    parseItems (lexeme :: lexemes) =
      if lexeme.isTrivia then parseItems lexemes
      else match lexeme.token with
        | .function name =>
          match Lexeme.cutBlock? lexemes with
          | none => .error .unbalanced
          | some block => do return (← parseCall name block.inner) :: (← parseItems block.rest)
        | token => do return (← ofToken token) :: (← parseItems lexemes) := by
  rw [parseItems]
  split
  · rfl
  by_cases hfunction : ∃ name, lexeme.token = .function name
  · obtain ⟨name, htoken⟩ := hfunction
    simp only [htoken]
    split
    · rename_i hcut
      rw [hcut]
    · rename_i hcut
      rw [hcut]
  · cases htoken : lexeme.token <;> first | rfl | exact absurd ⟨_, htoken⟩ hfunction

theorem parseGroups_nil : parseGroups [] = .ok [] := by
  rw [parseGroups]

theorem parseGroups_cons (group : List Lexeme) (groups : List (List Lexeme)) :
    parseGroups (group :: groups) = do
      let items ← parseItems group
      if items.isEmpty then .error .empty
      else return spaceList items :: (← parseGroups groups) := by
  rw [parseGroups]

theorem parseCall_eq (name : Text) (inner : List Lexeme) :
    parseCall name inner =
      if name.isKeyword "url" then parseQuotedUrl inner
      else if name.isKeyword "var" then
        match cutVariable inner with
        | .error error => .error error
        | .ok (name, none) => .ok (var name none)
        | .ok (name, some fallback) =>
          if Lexeme.isVoid fallback then .ok (var name (some (raw [])))
          else match parseGroups (Lexeme.splitCommas fallback).toList with
            | .ok values => .ok (var name (some (ofGroups values)))
            | .error _ => .ok (var name (some (raw (Lexeme.rawText fallback))))
      else if Lexeme.isVoid inner then .ok (call name [])
      else do return call name (← parseGroups (Lexeme.splitCommas inner).toList) := by
  rw [parseCall]
  split
  · rfl
  split
  · split
    · rename_i hcut
      rw [hcut]
    · rename_i hcut
      rw [hcut]
    · rename_i fallback hcut
      cases hvalues : parseGroups (Lexeme.splitCommas fallback).toList <;>
        simp only [hcut, hvalues]
  · rfl

def ofFallback (behind : List Lexeme) : Value :=
  if Lexeme.isVoid behind then raw []
  else match parseGroups (Lexeme.splitCommas behind).toList with
    | .ok values => ofGroups values
    | .error _ => raw (Lexeme.rawText behind)

theorem parseCall_eq_var {name : Text} (hurl : name.isKeyword "url" = false)
    (hvar : name.isKeyword "var" = true) (inner : List Lexeme) :
    parseCall name inner =
      (cutVariable inner).map fun cut => var cut.1 (cut.2.map ofFallback) := by
  rw [parseCall_eq, hurl, hvar]
  cases cutVariable inner with
  | error error => rfl
  | ok cut =>
    obtain ⟨property, _ | behind⟩ := cut
    · rfl
    · simp only [Bool.false_eq_true, if_false, if_true, Except.map, Option.map_some, ofFallback]
      split
      · rfl
      · cases parseGroups (Lexeme.splitCommas behind).toList <;> rfl

end Value

def Declaration.mapRaw (f : Text → Text) (declaration : Declaration) : Declaration :=
  { declaration with value := declaration.value.mapRaw f }

theorem Declaration.mapRaw_id (declaration : Declaration) :
    declaration.mapRaw id = declaration := by
  rw [mapRaw, Value.mapRaw_id]

/-- What two readings with the same image have in common. -/
theorem eq_or_exists_of_map_eq {ε α β : Type} {m : α → β} {read read' : Except ε α}
    (h : read.map m = read'.map m) :
    read = read' ∨ ∃ value value', read = .ok value ∧ read' = .ok value' ∧ m value = m value' := by
  cases read <;> cases read' <;> simp only [Except.map, reduceCtorEq, Except.error.injEq,
    Except.ok.injEq] at h
  · exact .inl (by rw [h])
  · exact .inr ⟨_, _, rfl, rfl, h⟩

theorem map_cons_congr {ε α β : Type} {m : α → β} {head head' : Except ε α}
    {tail tail' : Except ε (List α)} (hhead : head.map m = head'.map m)
    (htail : tail.map (List.map m) = tail'.map (List.map m)) :
    (do return (← head) :: (← tail) : Except ε (List α)).map (List.map m) =
      (do return (← head') :: (← tail') : Except ε (List α)).map (List.map m) := by
  obtain rfl | ⟨tail, tail', rfl, rfl, htails⟩ := eq_or_exists_of_map_eq htail <;>
    obtain rfl | ⟨head, head', rfl, rfl, hheads⟩ := eq_or_exists_of_map_eq hhead
  · rfl
  · cases tail with
    | error error => rfl
    | ok tail => simp only [bind, Except.bind, pure, Except.pure, Except.map, List.map_cons, hheads]
  · cases head with
    | error error => rfl
    | ok head => simp only [bind, Except.bind, pure, Except.pure, Except.map, List.map_cons, htails]
  · simp only [bind, Except.bind, pure, Except.pure, Except.map, List.map_cons, hheads, htails]

theorem exists_of_map_eq_ok {ε α β : Type} {f : α → β} {read : Except ε α} {b : β}
    (h : read.map f = .ok b) : ∃ a, read = .ok a ∧ f a = b := by
  cases read with
  | error error => contradiction
  | ok a => exact ⟨a, rfl, Except.ok.inj h⟩

theorem exists_of_cons_eq_ok {ε α : Type} {head : Except ε α} {tail : Except ε (List α)}
    {items : List α} (h : (do return (← head) :: (← tail) : Except ε (List α)) = .ok items) :
    ∃ item more, head = .ok item ∧ tail = .ok more ∧ items = item :: more := by
  cases head with
  | error error => contradiction
  | ok item =>
    cases tail with
    | error error => contradiction
    | ok more => exact ⟨item, more, rfl, rfl, (Except.ok.inj h).symm⟩

theorem Value.exists_of_parseGroups_cons {group : List Lexeme} {groups : List (List Lexeme)}
    {values : List Value} (h : parseGroups (group :: groups) = .ok values) :
    ∃ items more, parseItems group = .ok items ∧ items ≠ [] ∧ parseGroups groups = .ok more ∧
      values = spaceList items :: more := by
  rw [parseGroups_cons] at h
  cases hitems : parseItems group with
  | error error =>
    rw [hitems] at h
    contradiction
  | ok items =>
    simp only [hitems, bind, Except.bind] at h
    split at h
    · contradiction
    · rename_i hempty
      obtain ⟨more, hmore, rfl⟩ := exists_of_map_eq_ok (f := (spaceList items :: ·)) h
      refine ⟨items, more, rfl, ?_, hmore, rfl⟩
      rintro rfl
      exact hempty rfl

theorem Value.ne_nil_of_parseGroups {lexemes : List Lexeme} {values : List Value}
    (h : parseGroups (Lexeme.splitCommas lexemes).toList = .ok values) : values ≠ [] := by
  obtain ⟨items, more, -, -, -, rfl⟩ := exists_of_parseGroups_cons h
  exact List.cons_ne_nil _ _

theorem Value.exists_of_parse {lexemes : List Lexeme} {value : Value}
    (h : parse lexemes = .ok value) :
    Lexeme.isBalanced lexemes = true ∧
      ∃ values, parseGroups (Lexeme.splitCommas lexemes).toList = .ok values ∧
        ofGroups values = value := by
  unfold parse at h
  split at h
  · exact ⟨‹_›, exists_of_map_eq_ok h⟩
  · contradiction

theorem Value.suffix_of_cutVariable {inner fallback : List Lexeme} {name : Text}
    (h : cutVariable inner = .ok (name, some fallback)) : fallback <:+ inner := by
  unfold cutVariable at h
  split at h
  · contradiction
  · rename_i rest hrest
    split at h
    · simp at h
    · rename_i hfallback
      obtain ⟨-, heq⟩ := Prod.mk.inj (Except.ok.inj h)
      obtain rfl := Option.some.inj heq
      exact (Lexeme.suffix_of_next? hfallback).trans (Lexeme.suffix_of_next? hrest)
    · contradiction
  · contradiction

theorem Value.isClosed_of_cutVariable {inner fallback : List Lexeme} {name : Text}
    (h : cutVariable inner = .ok (name, some fallback)) (hclosed : Lexeme.IsClosed inner) :
    Lexeme.IsClosed fallback := by
  unfold cutVariable at h
  split at h
  · contradiction
  · rename_i rest hrest
    split at h
    · simp at h
    · rename_i hfallback
      obtain ⟨-, heq⟩ := Prod.mk.inj (Except.ok.inj h)
      obtain rfl := Option.some.inj heq
      exact Lexeme.isClosed_of_next? hfallback rfl rfl
        (Lexeme.isClosed_of_next? hrest rfl rfl hclosed)
    · contradiction
  · contradiction

namespace Lexeme.Recast

variable (recast : Recast)

/-! ### Trivia and places do not matter -/

theorem quotedUrl_map (inner : List Lexeme) :
    Value.parseQuotedUrl (recast.map false inner) = Value.parseQuotedUrl inner := by
  rw [Value.parseQuotedUrl, recast.next?_map, Value.parseQuotedUrl]
  cases next? inner with
  | none => rfl
  | some cut =>
    obtain ⟨token, rest⟩ := cut
    cases token <;> simp only [Option.map_some, recast.isVoid_map]

theorem cutVariable_map (inner : List Lexeme) :
    Value.cutVariable (recast.map false inner) =
      (Value.cutVariable inner).map fun (name, fallback) =>
        (name, fallback.map (recast.map false)) := by
  rw [Value.cutVariable, recast.next?_map, Value.cutVariable]
  cases next? inner with
  | none => rfl
  | some cut =>
    obtain ⟨token, rest⟩ := cut
    simp only [Option.map_some]
    split
    · contradiction
    · rename_i heq
      simp only [Option.some.injEq, Prod.mk.injEq] at heq
      obtain ⟨rfl, rfl⟩ := heq
      simp only [recast.next?_map]
      cases next? rest with
      | none => rfl
      | some cut =>
        obtain ⟨token, fallback⟩ := cut
        cases token <;> rfl
    · rename_i hname heq
      split
      · contradiction
      · rename_i heq'
        simp only [Option.some.injEq, Prod.mk.injEq] at heq heq'
        obtain ⟨rfl, rfl⟩ := heq'
        exact (hname _ _ heq.symm).elim
      · rfl

/-- Whether a function on texts does not tell the source text of a part of some lexemes, with every
bracket closed, from what it is once they are written anew. -/
def Hides (f : Text → Text) (lexemes : List Lexeme) : Prop :=
  ∀ part, part <:+: lexemes → IsClosed part →
    f (rawText (recast.map false part)) = f (rawText part)

variable {recast} in
theorem Hides.of_isInfix {f : Text → Text} {part lexemes : List Lexeme}
    (h : recast.Hides f lexemes) (hpart : part <:+: lexemes) : recast.Hides f part :=
  fun inner hinner => h inner (hinner.trans hpart)

variable {recast} in
theorem Hides.splitCommas {f : Text → Text} {part lexemes : List Lexeme}
    (h : recast.Hides f lexemes) (hpart : part <:+: lexemes) :
    ∀ group ∈ (splitCommas part).toList, recast.Hides f group :=
  fun _ hmem => h.of_isInfix ((infix_of_mem_splitCommas hmem).trans hpart)

mutual

theorem items_map (recast : Recast) {f : Text → Text} (gap : Bool) {lexemes : List Lexeme}
    (h : recast.Hides f lexemes) :
    (Value.parseItems (recast.map gap lexemes)).map (List.map (Value.mapRaw f)) =
      (Value.parseItems lexemes).map (List.map (Value.mapRaw f)) := by
  match lexemes with
  | [] => rfl
  | lexeme :: lexemes =>
    have htail : lexemes <:+: lexeme :: lexemes := (List.suffix_cons ..).isInfix
    cases htrivia : lexeme.isTrivia with
    | true =>
      have hrest := recast.items_map true (h.of_isInfix htail)
      rw [Value.parseItems_cons lexeme, if_pos htrivia, ← hrest]
      obtain ⟨-, hmap⟩ | hmap := recast.map_trivia htrivia gap
      · rw [hmap]
      · rw [hmap, Value.parseItems_cons, recast.isTrivia_move, if_pos htrivia]
    | false =>
      rw [recast.map_token htrivia, Value.parseItems_cons, Value.parseItems_cons,
        recast.isTrivia_move, recast.token_move lexeme htrivia, recast.cutBlock?_map, htrivia]
      simp only [Bool.false_eq_true, if_false]
      split
      · cases hcut : cutBlock? lexemes with
        | none => rfl
        | some block =>
          have hlength := length_of_cutBlock? hcut
          obtain ⟨hinner, hrest⟩ := infix_of_cutBlock? hcut
          exact map_cons_congr
            (recast.call_map _ (h.of_isInfix (hinner.trans htail)) (isClosed_of_cutBlock? hcut))
            (recast.items_map false (h.of_isInfix (hrest.trans htail)))
      · exact map_cons_congr rfl (recast.items_map false (h.of_isInfix htail))
termination_by 2 * lexemes.length
decreasing_by all_goals (simp only [List.length_cons]; omega)

theorem valueGroups_map (recast : Recast) {f : Text → Text} {groups : List (List Lexeme)}
    (h : ∀ group ∈ groups, recast.Hides f group) :
    (Value.parseGroups (groups.map (recast.map false))).map (List.map (Value.mapRaw f)) =
      (Value.parseGroups groups).map (List.map (Value.mapRaw f)) := by
  match groups with
  | [] => rfl
  | group :: groups =>
    have hitems := recast.items_map false (h group List.mem_cons_self)
    have hgroups := recast.valueGroups_map fun group hmem =>
      h group (List.mem_cons_of_mem _ hmem)
    rw [List.map_cons, Value.parseGroups_cons, Value.parseGroups_cons]
    obtain heq | ⟨items, items', hread, hread', heq⟩ := eq_or_exists_of_map_eq hitems
    · rw [heq]
      cases Value.parseItems group with
      | error error => rfl
      | ok items =>
        simp only [bind, Except.bind]
        split
        · rfl
        · have hlist : Except.map (Value.mapRaw f) (.ok (Value.spaceList items)) =
              (.ok (Value.spaceList items) : Except ValueError Value).map (Value.mapRaw f) := rfl
          exact map_cons_congr hlist hgroups
    · have hempty : items.isEmpty = items'.isEmpty := by
        rw [← List.isEmpty_map (f := Value.mapRaw f), heq, List.isEmpty_map]
      simp only [hread, hread', bind, Except.bind, hempty]
      split
      · rfl
      · have hlist : Except.map (Value.mapRaw f) (.ok (Value.spaceList items)) =
            (.ok (Value.spaceList items') : Except ValueError Value).map (Value.mapRaw f) := by
          simp only [Except.map, Value.mapRaw_spaceList, heq]
        exact map_cons_congr hlist hgroups
termination_by 2 * totalLength groups
decreasing_by all_goals (simp only [totalLength]; omega)

theorem call_map (recast : Recast) {f : Text → Text} (name : Text) {inner : List Lexeme}
    (h : recast.Hides f inner) (hclosed : IsClosed inner) :
    (Value.parseCall name (recast.map false inner)).map (Value.mapRaw f) =
      (Value.parseCall name inner).map (Value.mapRaw f) := by
  have hgroups := recast.valueGroups_map (h.splitCommas List.infix_rfl)
  rw [Value.parseCall_eq, Value.parseCall_eq, recast.quotedUrl_map, recast.cutVariable_map,
    recast.isVoid_map, recast.splitCommas_map]
  split
  · rfl
  split
  · cases hcut : Value.cutVariable inner with
    | error error => rfl
    | ok cut =>
      obtain ⟨name, fallback⟩ := cut
      cases fallback with
      | none => rfl
      | some fallback =>
        have hlength := Value.length_of_cutVariable hcut
        have hfallback := (Value.suffix_of_cutVariable hcut).isInfix
        have hvalues := recast.valueGroups_map (h.splitCommas hfallback)
        simp only [Except.map, Option.map_some, recast.isVoid_map, recast.splitCommas_map]
        cases isVoid fallback with
        | true => rfl
        | false =>
          obtain heq | ⟨values, values', hread, hread', heq⟩ := eq_or_exists_of_map_eq hvalues
          · rw [heq]
            cases Value.parseGroups (splitCommas fallback).toList with
            | ok values => rfl
            | error error =>
              simp only [Bool.false_eq_true, if_false, Value.mapRaw, Value.mapRawOption,
                h fallback hfallback (Value.isClosed_of_cutVariable hcut hclosed)]
          · simp only [hread, hread', Bool.false_eq_true, if_false, Value.mapRaw,
              Value.mapRawOption, Value.mapRaw_ofGroups, heq]
  split
  · rfl
  · obtain heq | ⟨values, values', hread, hread', heq⟩ := eq_or_exists_of_map_eq hgroups
    · rw [heq]
    · simp only [hread, hread', bind, Except.bind, pure, Except.pure, Except.map,
        Value.mapRaw_call, heq]
termination_by 2 * inner.length + 3
decreasing_by
  all_goals
    rw [totalLength_splitCommas]
    omega

end

theorem value_map {f : Text → Text} {lexemes : List Lexeme} (h : recast.Hides f lexemes) :
    (Value.parse (recast.map false lexemes)).map (Value.mapRaw f) =
      (Value.parse lexemes).map (Value.mapRaw f) := by
  have hgroups := recast.valueGroups_map (h.splitCommas List.infix_rfl)
  rw [Value.parse, recast.isBalanced_map, recast.splitCommas_map, Value.parse]
  split
  · obtain heq | ⟨values, values', hread, hread', heq⟩ := eq_or_exists_of_map_eq hgroups
    · rw [heq]
    · simp only [hread, hread', Except.map, Value.mapRaw_ofGroups, heq]
  · rfl

theorem readValue_map {f : Text → Text} (name : Text) {value : List Lexeme}
    (h : recast.Hides f value) (hclosed : IsClosed value) :
    (Declaration.readValue name (recast.map false value)).mapRaw f =
      (Declaration.readValue name value).mapRaw f := by
  have hraw : (Value.raw (rawText (recast.map false value))).mapRaw f =
      (Value.raw (rawText value)).mapRaw f := by
    rw [Value.mapRaw, Value.mapRaw, h value List.infix_rfl hclosed]
  unfold Declaration.readValue
  split
  · obtain heq | ⟨read, read', hread, hread', heq⟩ := eq_or_exists_of_map_eq (recast.value_map h)
    · rw [heq]
      cases Value.parse value with
      | ok read => rfl
      | error error => exact hraw
    · rw [hread, hread']
      exact heq
  · exact hraw

theorem cutImportant_map (value : List Lexeme) :
    Declaration.cutImportant (recast.map false value) =
      (recast.map false (Declaration.cutImportant value).1,
        (Declaration.cutImportant value).2) := by
  rw [Declaration.cutImportant, recast.next?_reverse_map, Declaration.cutImportant]
  cases next? value.reverse with
  | none => rfl
  | some cut =>
    obtain ⟨word, before⟩ := cut
    simp only [Option.map_some, recast.next?_reverse_map, List.reverse_reverse]
    cases next? before with
    | none => rfl
    | some cut =>
      obtain ⟨token, before⟩ := cut
      simp only [Option.map_some]
      split
      · rename_i heq
        simp only [Option.some.injEq, Prod.mk.injEq] at heq
        obtain ⟨rfl, rfl⟩ := heq
        simp only [List.reverse_reverse]
        split <;> rfl
      · rename_i hbang
        split
        · rename_i heq
          simp only [Option.some.injEq, Prod.mk.injEq] at heq
          obtain ⟨rfl, rfl⟩ := heq
          exact absurd rfl (hbang _)
        · rfl

theorem cutName_map (lexemes : List Lexeme) :
    Declaration.cutName (recast.map false lexemes) =
      (Declaration.cutName lexemes).map fun (name, value) => (name, recast.map false value) := by
  rw [Declaration.cutName, recast.next?_map, Declaration.cutName]
  cases next? lexemes with
  | none => rfl
  | some cut =>
    obtain ⟨token, rest⟩ := cut
    cases token with
    | ident name =>
      simp only [Option.map_some, recast.next?_map]
      cases next? rest with
      | none => rfl
      | some cut =>
        obtain ⟨token, value⟩ := cut
        cases token <;> rfl
    | _ => rfl

end Lexeme.Recast

namespace Declaration

open Lexeme

/-- What is cut off has no brackets. -/
theorem exists_of_cutImportant (value : List Lexeme) :
    ∃ tail, value = (cutImportant value).1 ++ tail ∧
      ∀ lexeme ∈ tail, lexeme.token.opens? = none ∧ lexeme.token.closes? = none := by
  have hwhole : ∃ tail, value = value ++ tail ∧
      ∀ lexeme ∈ tail, lexeme.token.opens? = none ∧ lexeme.token.closes? = none :=
    ⟨[], (List.append_nil value).symm, List.forall_mem_nil _⟩
  unfold cutImportant
  split
  · rename_i word before hword
    split
    · rename_i before hbang
      split
      · rename_i himportant
        obtain ⟨behind, last, hreverse, rfl, -, hbehind⟩ := exists_of_next? hword
        obtain ⟨middle, bang, rfl, hbang, -, hmiddle⟩ := exists_of_next? hbang
        refine ⟨bang :: (middle.reverse ++ last :: behind.reverse), ?_, ?_⟩
        · rw [← List.reverse_reverse value, hreverse]
          simp
        · have hplain := plain_of_isVoid (List.all_eq_true.2 hbehind)
          have hplain' := plain_of_isVoid (List.all_eq_true.2 hmiddle)
          intro lexeme hmem
          simp only [List.mem_cons, List.mem_append, List.mem_reverse] at hmem
          obtain rfl | hmem | rfl | hmem := hmem
          · rw [hbang]
            exact ⟨rfl, rfl⟩
          · exact hplain' lexeme hmem
          · generalize lexeme.token = token at himportant
            cases token <;> first | exact ⟨rfl, rfl⟩ | contradiction
          · exact hplain lexeme hmem
      · exact hwhole
    · exact hwhole
  · exact hwhole

theorem prefix_of_cutImportant (value : List Lexeme) : (cutImportant value).1 <+: value := by
  obtain ⟨tail, htail, -⟩ := exists_of_cutImportant value
  exact ⟨tail, htail.symm⟩

theorem isClosed_of_cutImportant {value : List Lexeme} (h : IsClosed value) :
    IsClosed (cutImportant value).1 := by
  obtain ⟨tail, htail, hplain⟩ := exists_of_cutImportant value
  rw [htail] at h
  exact (@isClosed_append_iff [] _ _ (List.forall_mem_nil _) hplain).1 h

theorem suffix_of_cutName {lexemes value : List Lexeme} {name : Text}
    (h : cutName lexemes = .ok (name, value)) : value <:+ lexemes := by
  unfold cutName at h
  split at h
  · rename_i hname
    split at h
    · rename_i hcolon
      obtain ⟨-, rfl⟩ := Prod.mk.inj (Except.ok.inj h)
      exact (suffix_of_next? hcolon).trans (suffix_of_next? hname)
    · contradiction
  · contradiction

end Declaration

namespace Lexeme

/-- Whether a function on texts does not tell the source text of a part of some lexemes, with every
bracket closed and no token cut short, from what it is once they are written anew. -/
def Recast.HidesSound (recast : Recast) (f : Text → Text) (lexemes : List Lexeme) : Prop :=
  ∀ part, part <:+: lexemes → IsClosed part → (∀ lexeme ∈ part, lexeme.token.isBad = false) →
    f (rawText (recast.map false part)) = f (rawText part)

theorem Recast.HidesSound.of_isInfix {recast : Recast} {f : Text → Text}
    {part lexemes : List Lexeme} (h : recast.HidesSound f lexemes) (hpart : part <:+: lexemes) :
    recast.HidesSound f part :=
  fun inner hinner => h inner (hinner.trans hpart)

/-- A declaration is read from lexemes written anew up to its raw texts, as far as these do not tell
the lexemes from what they were. -/
theorem Recast.declaration_map (recast : Recast) {f : Text → Text} (isClosed : Bool)
    (lexemes : List Lexeme) (h : recast.HidesSound f lexemes) :
    (Declaration.parse isClosed (recast.map false lexemes)).map (Declaration.mapRaw f) =
      (Declaration.parse isClosed lexemes).map (Declaration.mapRaw f) := by
  rw [Declaration.parse, recast.cutName_map, Declaration.parse]
  cases hname : Declaration.cutName lexemes with
  | error error => rfl
  | ok cut =>
    obtain ⟨name, value⟩ := cut
    have hvalue := (Declaration.suffix_of_cutName hname).isInfix
    have hbad := recast.any_map (p := Token.isBad)
      (fun token h => by cases token <;> first | rfl | contradiction) false value
    simp only [Except.map, bind, Except.bind, recast.isBalanced_map, hbad,
      recast.cutImportant_map, recast.isVoid_map]
    cases hbalanced : !isClosed || !isBalanced value with
    | true => rfl
    | false =>
      cases hgood : value.any fun lexeme => lexeme.token.isBad with
      | true => rfl
      | false =>
        have hprefix := (Declaration.prefix_of_cutImportant value).isInfix
        have hides : recast.Hides f (Declaration.cutImportant value).1 := by
          refine fun part hpart hclosed => h part ((hpart.trans hprefix).trans hvalue) hclosed
            fun lexeme hmem => ?_
          simpa using List.any_eq_false.1 hgood lexeme ((hpart.trans hprefix).subset hmem)
        have hclosed : IsClosed (Declaration.cutImportant value).1 := by
          simp only [Bool.or_eq_false_iff, Bool.not_eq_false'] at hbalanced
          exact Declaration.isClosed_of_cutImportant (balanced_of_isBalanced hbalanced.2).isClosed
        cases isVoid (Declaration.cutImportant value).1 && !Property.isCustom name with
        | true => rfl
        | false =>
          simp only [Bool.false_eq_true, if_false, pure, Except.pure, Declaration.mapRaw,
            recast.readValue_map name hides hclosed]

theorem Moves.value_map {move : Lexeme → Lexeme} (h : Moves move) (lexemes : List Lexeme) :
    Value.parse (lexemes.map move) = Value.parse lexemes := by
  have hid : ∀ read : Except ValueError Value, read.map (Value.mapRaw id) = read := by
    intro read
    cases read with
    | error error => rfl
    | ok value => rw [Except.map, Value.mapRaw_id]
  have hides : h.recast.Hides id lexemes := fun part _ _ => by rw [h.map_recast, h.rawText_map]
  have hread := h.recast.value_map hides
  rwa [h.map_recast, hid, hid] at hread

theorem Moves.declaration_map {move : Lexeme → Lexeme} (h : Moves move) (isClosed : Bool)
    (lexemes : List Lexeme) :
    Declaration.parse isClosed (lexemes.map move) = Declaration.parse isClosed lexemes := by
  have hid : ∀ read : Except DeclarationError Declaration,
      read.map (Declaration.mapRaw id) = read := by
    intro read
    cases read with
    | error error => rfl
    | ok declaration => rw [Except.map, Declaration.mapRaw_id]
  have hread := h.recast.declaration_map (f := id) isClosed lexemes
    fun part _ _ _ => by rw [h.map_recast, h.rawText_map]
  rwa [h.map_recast, hid, hid] at hread

end Lexeme

/-- Only where every bracket was closed in order is there a declaration. -/
theorem Declaration.isClosed_of_parse {isClosed : Bool} {lexemes : List Lexeme}
    {declaration : Declaration} (h : parse isClosed lexemes = .ok declaration) :
    isClosed = true := by
  cases isClosed with
  | true => rfl
  | false =>
    exfalso
    unfold parse at h
    cases hname : cutName lexemes <;> simp [hname, bind, Except.bind] at h

end Css
