import Css.Proofs.Stylesheet.Steps

/-!
# The parts of a style sheet

Selectors, preludes and declarations are read one at a time, each inside some number of blocks. What
holds of each of them where it is read holds of each part of the sheet.
-/

namespace Css

inductive Part where
  | selectors (selectors : SelectorList)
  | prelude (prelude : Prelude)
  | declaration (declaration : Declaration)

mutual

/-- Whether something holds of every part of a rule that stands inside `depth` blocks, given the
blocks around the part. -/
def Rule.EachPart (holds : Nat → Part → Prop) (depth : Nat) : Rule → Prop
  | .style selectors declarations =>
    holds depth (.selectors selectors) ∧
      ∀ declaration ∈ declarations, holds (depth + 1) (.declaration declaration)
  | .statement _ prelude => holds depth (.prelude prelude)
  | .group _ prelude rules =>
    holds depth (.prelude prelude) ∧ Stylesheet.EachPart holds (depth + 1) rules
  | .descriptors _ prelude declarations =>
    holds depth (.prelude prelude) ∧
      ∀ declaration ∈ declarations, holds (depth + 1) (.declaration declaration)

def Stylesheet.EachPart (holds : Nat → Part → Prop) (depth : Nat) : List Rule → Prop
  | [] => True
  | rule :: rules => rule.EachPart holds depth ∧ Stylesheet.EachPart holds depth rules

end

mutual

def Rule.decideEachPart (holds : Nat → Part → Prop) [∀ depth part, Decidable (holds depth part)]
    (depth : Nat) : (rule : Rule) → Decidable (rule.EachPart holds depth)
  | .style selectors declarations =>
    inferInstanceAs (Decidable (holds depth (.selectors selectors) ∧
      ∀ declaration ∈ declarations, holds (depth + 1) (.declaration declaration)))
  | .statement _ prelude => inferInstanceAs (Decidable (holds depth (.prelude prelude)))
  | .group _ prelude rules =>
    have := Stylesheet.decideEachPart holds (depth + 1) rules
    inferInstanceAs (Decidable (holds depth (.prelude prelude) ∧
      Stylesheet.EachPart holds (depth + 1) rules))
  | .descriptors _ prelude declarations =>
    inferInstanceAs (Decidable (holds depth (.prelude prelude) ∧
      ∀ declaration ∈ declarations, holds (depth + 1) (.declaration declaration)))

def Stylesheet.decideEachPart (holds : Nat → Part → Prop)
    [∀ depth part, Decidable (holds depth part)] (depth : Nat) :
    (rules : List Rule) → Decidable (Stylesheet.EachPart holds depth rules)
  | [] => inferInstanceAs (Decidable True)
  | rule :: rules =>
    have := Rule.decideEachPart holds depth rule
    have := Stylesheet.decideEachPart holds depth rules
    inferInstanceAs (Decidable (rule.EachPart holds depth ∧
      Stylesheet.EachPart holds depth rules))

end

instance {holds : Nat → Part → Prop} [∀ depth part, Decidable (holds depth part)] (depth : Nat)
    (rules : List Rule) : Decidable (Stylesheet.EachPart holds depth rules) :=
  Stylesheet.decideEachPart holds depth rules

variable {holds : Nat → Part → Prop}

mutual

/-- What holds of every part does so in a weaker form. -/
theorem Rule.EachPart.imp {holds' : Nat → Part → Prop}
    (himp : ∀ depth part, holds depth part → holds' depth part) {depth : Nat} {rule : Rule}
    (h : rule.EachPart holds depth) : rule.EachPart holds' depth := by
  cases rule with
  | style selectors declarations =>
    exact ⟨himp _ _ h.1, fun declaration hmem => himp _ _ (h.2 declaration hmem)⟩
  | statement name prelude => exact himp _ _ h
  | group name prelude rules => exact ⟨himp _ _ h.1, Stylesheet.EachPart.imp himp h.2⟩
  | descriptors name prelude declarations =>
    exact ⟨himp _ _ h.1, fun declaration hmem => himp _ _ (h.2 declaration hmem)⟩

theorem Stylesheet.EachPart.imp {holds' : Nat → Part → Prop}
    (himp : ∀ depth part, holds depth part → holds' depth part) {depth : Nat} {rules : List Rule}
    (h : Stylesheet.EachPart holds depth rules) : Stylesheet.EachPart holds' depth rules := by
  cases rules with
  | nil => trivial
  | cons rule rules => exact ⟨Rule.EachPart.imp himp h.1, Stylesheet.EachPart.imp himp h.2⟩

end

theorem Stylesheet.eachPart_append {depth : Nat} {rules rules' : List Rule}
    (h : EachPart holds depth rules) (h' : EachPart holds depth rules') :
    EachPart holds depth (rules ++ rules') := by
  induction rules with
  | nil => exact h'
  | cons rule rules ih => exact ⟨h.1, ih h.2⟩

theorem Stylesheet.eachPart_push {depth : Nat} {rules : Array Rule} {rule : Rule}
    (h : EachPart holds depth rules.toList) (hrule : rule.EachPart holds depth) :
    EachPart holds depth (rules.push rule).toList := by
  rw [Array.toList_push]
  exact eachPart_append h ⟨hrule, trivial⟩

namespace Parser

def Frame.EachPart (holds : Nat → Part → Prop) (depth : Nat) : Frame → Prop
  | style selectors _ declarations =>
    (∀ read, selectors = .ok read → holds depth (.selectors read)) ∧
      ∀ declaration ∈ declarations, holds (depth + 1) (.declaration declaration)
  | group _ _ prelude rules =>
    holds depth (.prelude prelude) ∧ Stylesheet.EachPart holds (depth + 1) rules.toList
  | descriptors _ _ prelude declarations =>
    holds depth (.prelude prelude) ∧
      ∀ declaration ∈ declarations, holds (depth + 1) (.declaration declaration)

def Frame.EachPartAll (holds : Nat → Part → Prop) : List Frame → Prop
  | [] => True
  | frame :: frames => frame.EachPart holds frames.length ∧ Frame.EachPartAll holds frames

def Purpose.Gives (holds : Nat → Part → Prop) (depth : Nat) (segment : Segment) :
    Purpose → Prop
  | selector => segment.unmatched = none → ∀ selectors,
      SelectorList.parse segment.lexemes.toList = .ok selectors →
        holds depth (.selectors selectors)
  | atRule _ name => holds depth (.prelude (State.readPrelude name segment.lexemes.toList))
  | declaration => ∀ declaration,
      Declaration.parse segment.unmatched.isNone segment.lexemes.toList = .ok declaration →
        holds depth (.declaration declaration)

namespace State

structure EachPart (holds : Nat → Part → Prop) (state : State) : Prop where
  rules : Stylesheet.EachPart holds 0 state.rules.toList
  frames : Frame.EachPartAll holds state.frames

namespace EachPart

variable {state : State}

theorem of_eq {after : State} (h : state.EachPart holds) (hrules : after.rules = state.rules)
    (hframes : after.frames = state.frames) : after.EachPart holds :=
  ⟨by rw [hrules]; exact h.rules, by rw [hframes]; exact h.frames⟩

theorem addDeclaration (h : state.EachPart holds) {declaration : Declaration}
    (hdeclaration : holds state.frames.length (.declaration declaration)) :
    (state.addDeclaration declaration).EachPart holds := by
  have hframes := h.frames
  unfold State.addDeclaration
  split
  · rename_i heq
    rw [heq] at hframes hdeclaration
    obtain ⟨⟨hselectors, hdeclarations⟩, hrest⟩ := hframes
    refine ⟨h.rules, ⟨hselectors, fun member hmem => ?_⟩, hrest⟩
    obtain hmem | rfl := Array.mem_push.1 hmem
    · exact hdeclarations member hmem
    · exact hdeclaration
  · rename_i heq
    rw [heq] at hframes hdeclaration
    obtain ⟨⟨hprelude, hdeclarations⟩, hrest⟩ := hframes
    refine ⟨h.rules, ⟨hprelude, fun member hmem => ?_⟩, hrest⟩
    obtain hmem | rfl := Array.mem_push.1 hmem
    · exact hdeclarations member hmem
    · exact hdeclaration
  · exact h

theorem addRule (h : state.EachPart holds) {rule : Rule}
    (hrule : rule.EachPart holds state.frames.length) : (state.addRule rule).EachPart holds := by
  have hframes := h.frames
  unfold State.addRule
  split
  · rename_i heq
    rw [heq] at hrule
    exact ⟨Stylesheet.eachPart_push h.rules hrule, h.frames⟩
  · rename_i heq
    rw [heq] at hframes hrule
    obtain ⟨⟨hprelude, hrules⟩, hrest⟩ := hframes
    exact ⟨h.rules, ⟨hprelude, Stylesheet.eachPart_push hrules hrule⟩, hrest⟩
  · exact h

theorem addAtRule (h : state.EachPart holds) (start : Span) {rule : Rule}
    (hrule : rule.EachPart holds state.frames.length) :
    (state.addAtRule start rule).EachPart holds := by
  unfold State.addAtRule
  split
  · split
    · exact h
    · exact h.of_eq rfl rfl
  · exact h.addRule hrule

theorem closeFrame (h : state.EachPart holds) : state.closeFrame.EachPart holds := by
  have hframes := h.frames
  unfold State.closeFrame
  split
  · exact h
  · rename_i frame frames heq
    rw [heq] at hframes
    obtain ⟨hframe, hrest⟩ := hframes
    have hbehind : EachPart holds { state with frames } := ⟨h.rules, hrest⟩
    split
    · rename_i selectors _ declarations
      refine hbehind.addRule ⟨hframe.1 selectors rfl, fun declaration hmem => ?_⟩
      exact hframe.2 declaration (Array.mem_toList_iff.1 hmem)
    · exact hbehind.of_eq rfl rfl
    · exact hbehind.addAtRule _ hframe
    · refine hbehind.addAtRule _ ⟨hframe.1, fun declaration hmem => ?_⟩
      exact hframe.2 declaration (Array.mem_toList_iff.1 hmem)

theorem closeFrames (h : state.EachPart holds) (atEnd : Option Span) (frames : List Frame) :
    (State.closeFrames atEnd frames state).EachPart holds := by
  induction frames generalizing state with
  | nil => exact h
  | cons frame frames ih =>
    cases atEnd with
    | none => exact ih h.closeFrame
    | some span => exact ih (EachPart.closeFrame (h.of_eq rfl rfl))

/-! ### Segments and blocks -/

theorem addStatement (h : state.EachPart holds) {name : Text} {segment : Segment}
    (hprelude : holds state.frames.length
      (.prelude (readPrelude name segment.lexemes.toList))) (start stop : Span) :
    (state.addStatement start name segment stop).EachPart holds := by
  have hreport : (state.reportUnmatched start segment stop).EachPart holds :=
    h.of_eq (rules_reportUnmatched ..) (frames_reportUnmatched ..)
  refine hreport.addAtRule start ?_
  rw [frames_reportUnmatched]
  exact hprelude

theorem endSegment (h : state.EachPart holds) {purpose : Purpose} {segment : Segment}
    (hgives : purpose.Gives holds state.frames.length segment.finish) (stop : Span) :
    (state.endSegment purpose segment stop).EachPart holds := by
  have hclear : EachPart holds { state with segment := none } := h.of_eq rfl rfl
  unfold State.endSegment
  cases purpose with
  | selector => exact hclear.of_eq rfl rfl
  | atRule start name => exact hclear.addStatement hgives start stop
  | declaration =>
    simp only
    split
    · rename_i declaration hparse
      exact hclear.addDeclaration (hgives declaration hparse)
    · exact hclear.of_eq rfl rfl

theorem eachPart_frame? {purpose : Purpose} {segment : Segment} {stop : Span} {frame : Frame}
    {depth : Nat} (hgives : purpose.Gives holds depth segment)
    (hframe : State.frame? purpose segment stop = some frame) : frame.EachPart holds depth := by
  cases purpose with
  | selector =>
    obtain rfl := Option.some.inj hframe
    refine ⟨fun selectors hread => ?_, fun _ hmem => absurd hmem (Array.not_mem_empty _)⟩
    split at hread
    · contradiction
    · rename_i hunmatched
      exact hgives (Option.not_isSome_iff_eq_none.1 hunmatched) selectors hread
  | atRule start name =>
    simp only [State.frame?] at hframe
    split at hframe
    · obtain rfl := Option.some.inj hframe
      exact ⟨hgives, trivial⟩
    · obtain rfl := Option.some.inj hframe
      exact ⟨hgives, fun _ hmem => absurd hmem (Array.not_mem_empty _)⟩
  | declaration => exact absurd hframe (by simp [State.frame?])

theorem openBlock (h : state.EachPart holds) {purpose : Purpose} {segment : Segment}
    (hgives : purpose.Gives holds state.frames.length segment) (stop : Span) :
    (state.openBlock purpose segment stop).EachPart holds := by
  have hblock : (state.atBlock purpose segment stop).EachPart holds :=
    h.of_eq (rules_atBlock ..) (frames_atBlock ..)
  have habort : ((state.atBlock purpose segment stop).abort stop).EachPart holds :=
    hblock.of_eq rfl rfl
  rw [openBlock_eq]
  split
  · exact habort.closeFrames ..
  · refine ⟨hblock.rules, ?_⟩
    cases hframe : frame? purpose segment stop with
    | none => exact h.frames
    | some frame => exact ⟨eachPart_frame? hgives hframe, h.frames⟩

theorem abortSegment (h : state.EachPart holds) {purpose : Purpose} {segment : Segment}
    (hgives : purpose.Gives holds state.frames.length segment) (stop : Span) :
    (state.abortSegment purpose segment stop).EachPart holds := by
  have habort : (state.abort stop).EachPart holds := h.of_eq rfl rfl
  unfold State.abortSegment
  cases purpose with
  | atRule start name => exact (habort.addStatement hgives start stop).closeFrames ..
  | selector => exact habort.closeFrames ..
  | declaration => exact habort.closeFrames ..

theorem closeCurly (h : state.EachPart holds) (span : Span) :
    (state.closeCurly span).EachPart holds := by
  unfold State.closeCurly
  split
  · exact h.of_eq rfl rfl
  · exact h.closeFrame

end EachPart

end State

end Parser

end Css
