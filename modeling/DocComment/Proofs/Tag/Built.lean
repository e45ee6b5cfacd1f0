import DocComment.Proofs.Tag.MethodRereading
import DocComment.Proofs.Tag.Rereading

/-!
# Tags that are built

A content may be written down directly, with blanks at the end of a description or a name. The
functions that build a tag, and reading, trim what they are given. So the written form of a tag
that they built has no blank at its end, whatever else it has inside.
-/
namespace DocComment.Tag

open Text

/-- The tags that the building functions and the reader give. Labels may come later: they are no
part of the content. -/
inductive Built : Tag → Prop
  | generic {name body : Text} {tag : Tag} : ofGeneric name body = .ok tag → Built tag
  | param {type : TypeExpr} {name description : Text} {tag : Tag} :
    ofParam type name description = .ok tag → Built tag
  | returns {type : TypeExpr} {description : Text} {tag : Tag} :
    ofReturn type description = .ok tag → Built tag
  | var {type : TypeExpr} {name : Option Text} {description : Text} {tag : Tag} :
    ofVar type name description = .ok tag → Built tag
  | mixin {type : TypeExpr} {tag : Tag} : ofMixin type = .ok tag → Built tag
  | property {access : Access} {type : TypeExpr} {name description : Text} {tag : Tag} :
    ofProperty access type name description = .ok tag → Built tag
  | method (method : Method) : Built (ofMethod method)
  | read {name body : Text} {tag : Tag} : read name body = .ok tag → Built tag
  | withLabels {tag : Tag} (labels : List Text) : Built tag → Built (tag.withLabels labels)
  | addLabel {tag : Tag} (label : Text) : Built tag → Built (tag.addLabel label)

/-- A text without one sign in front of it ends as it did. A text that is the sign alone is left
empty, and then there is no end that could be blank. -/
theorem endsVisible_dropSigil {text : Text} (ends : EndsVisible text) :
    EndsVisible (dropSigil text) := by
  unfold dropSigil
  split
  · exact endsVisible_of_append ['$'] ends
  · exact ends

/-- A variable that a text names ends visibly behind its sign. The sign itself is visible, so
this holds for an empty name too. -/
theorem endsVisible_variableOfText {tag : TagName} {given name : Text}
    (named : variableOfText tag given = .ok name) : EndsVisible ('$' :: name) := by
  simp only [variableOfText] at named
  split at named
  · contradiction
  · rename_i something
    obtain rfl := Except.ok.inj named
    exact endsVisible_cons something (endsVisible_dropSigil (endsVisible_trim given))

/-- A type ends visibly, as its text is trimmed. -/
theorem endsVisible_type (type : TypeExpr) : EndsVisible type.text :=
  (trim_eq_self_iff.mp type.trimmed).2

/-- A declaration ends visibly if its variable does. It ends in the last of its parts that is not
empty, and the description is trimmed first. -/
theorem endsVisible_declaration (type : TypeExpr) {token : Text} (ends : EndsVisible token)
    (description : Text) : EndsVisible (spaced [type.text, token, trim description]) := by
  refine endsVisible_spaced fun piece member => ?_
  simp only [List.mem_cons, List.not_mem_nil, or_false] at member
  rcases member with rfl | rfl | rfl
  · exact endsVisible_type type
  · exact ends
  · exact endsVisible_trim description

/-- The body of a tag that was built has no blank at its end. The induction is on how the tag was
made; labels leave the body as it is. -/
theorem Built.endsVisible_body {tag : Tag} (built : tag.Built) : EndsVisible tag.body := by
  induction built with
  | generic done =>
    obtain ⟨keyword, -, made⟩ := exists_of_bind_eq_ok done
    obtain rfl := Except.ok.inj made
    exact endsVisible_trim _
  | param done =>
    obtain ⟨name, named, made⟩ := exists_of_bind_eq_ok done
    obtain rfl := Except.ok.inj made
    exact endsVisible_declaration _ (endsVisible_variableOfText named) _
  | returns done =>
    rw [ofReturn] at done
    split at done
    · contradiction
    · obtain rfl := Except.ok.inj done
      refine endsVisible_spaced fun piece member => ?_
      simp only [List.mem_cons, List.not_mem_nil, or_false] at member
      rcases member with rfl | rfl
      · exact endsVisible_type _
      · exact endsVisible_trim _
  | @var type name description tag done =>
    cases name with
    | none =>
      obtain rfl := Except.ok.inj done
      have unnamed : EndsVisible [] := by simp [EndsVisible]
      exact endsVisible_declaration type unnamed _
    | some given =>
      obtain ⟨name, named, made⟩ := exists_of_bind_eq_ok done
      obtain rfl := Except.ok.inj made
      exact endsVisible_declaration _ (endsVisible_variableOfText named) _
  | mixin done =>
    rw [ofMixin] at done
    split at done
    · contradiction
    · obtain rfl := Except.ok.inj done
      exact endsVisible_type _
  | property done =>
    obtain ⟨name, named, made⟩ := exists_of_bind_eq_ok done
    obtain rfl := Except.ok.inj made
    exact endsVisible_declaration _ (endsVisible_variableOfText named) _
  | method method => exact (trim_eq_self_iff.mp method.trim_written).2
  | @read name body tag done =>
    obtain ⟨keyword, -, done⟩ := exists_of_bind_eq_ok done
    cases form : tag.method? with
    | none => exact (trim_eq_self_iff.mp (readBody_readsBack (trim_trim body) done form).trimmed).2
    | some method =>
      obtain ⟨content, labels⟩ := tag
      cases content with
      | method method => exact (trim_eq_self_iff.mp method.trim_written).2
      | _ => contradiction
  | withLabels labels _ inductionHypothesis => exact inductionHypothesis
  | addLabel label _ inductionHypothesis => exact inductionHypothesis

end DocComment.Tag
