import SafeCalls.Extraction.Setup
import SafeCalls.Proofs.LastSegment
import SafeCalls.Proofs.Registered

namespace SafeCalls

/-!
# How a marker may be spelled

Attributes are compared with three spellings of the configured name. An attribute that is written
with a namespace is only compared with the first of them, the whole name, so that a marker which is
configured without a namespace is not recognised where the namespace of the attribute was resolved.
-/

namespace Marker

variable {m : Marker} {a : Attribute} {name short : String}

theorem lastSegment_eq_self {cs : List Char} (h : '.' ∉ cs) : lastSegment cs = cs := by
  have hall : cs.reverse.takeWhile (· != '.') = cs.reverse := by
    rw [List.takeWhile_eq_self_iff]
    intro c hc
    rw [bne_iff_ne]
    rintro rfl
    exact h (List.mem_reverse.1 hc)
  rw [lastSegment, hall, List.reverse_reverse]

theorem simpleName_eq_fullName (h : '.' ∉ m.fullName.toList) : m.simpleName = m.fullName := by
  rw [simpleName, lastSegment_eq_self h, String.ofList_toList]

theorem withoutEnding_append (h : short ≠ "") : withoutEnding (short ++ ending) = short := by
  have hends : (short ++ ending).toList = short.toList ++ ending.toList := String.toList_append
  have hlength : (short.toList ++ ending.toList).length - ending.length = short.toList.length := by
    rw [List.length_append, String.length_toList, String.length_toList, Nat.add_sub_cancel]
  have hne : short.toList ≠ [] := mt String.toList_eq_nil_iff.1 h
  rw [withoutEnding, hends, hlength, List.take_left, if_pos ⟨rfl, hne⟩, String.ofList_toList]

theorem recognises_iff : m.recognises a = true ↔ a.className = m.fullName ∨
    '.' ∉ a.className.toList ∧ (a.className = m.simpleName ∨ a.className = m.shortName) := by
  simp [recognises]

theorem recognises_iff_of_mem (h : '.' ∈ a.className.toList) :
    m.recognises a = true ↔ a.className = m.fullName := by
  simp [recognises_iff, h]

theorem recognises_of_shortName (hname : m.fullName = a.simpleName ++ ending)
    (hne : a.simpleName ≠ "") (hmarker : '.' ∉ m.fullName.toList)
    (hattribute : '.' ∉ a.className.toList) : m.recognises a = true := by
  have hsame : a.simpleName = a.className := simpleName_eq_self hattribute
  refine recognises_iff.2 (.inr ⟨hattribute, .inr ?_⟩)
  rw [shortName, simpleName_eq_fullName hmarker, hname, withoutEnding_append hne, hsame]

end Marker

namespace Conventions

/-- A marker that is configured without a namespace is recognised in every attribute that has no
namespace either and whose name is the configured one or, where that has the ending, the configured
one without the ending. The method that carries such an attribute is trusted with all of its calls.
An attribute with a namespace is the marker just if it is the configured name, whether this has a
namespace or not. -/
theorem marked_methods_are_trusted (c : Conventions) (a : Attribute) :
    ('.' ∉ c.trustAllMarker.toList → '.' ∉ a.className.toList →
      a.simpleName = c.trustAllMarker ∨
        a.simpleName ≠ "" ∧ c.trustAllMarker = a.simpleName ++ Marker.ending →
      c.interpreter.isMarker a = true ∧
        ∀ (model : SemanticModel) (m : MethodDeclaration) (declared : Symbol),
          model.declaredAt m.id = some declared → a ∈ declared.attributes →
          (c.interpreter.trust model m).answer = .trustAllCalls) ∧
    ('.' ∈ a.className.toList →
      (c.interpreter.isMarker a = true ↔ a.className = c.trustAllMarker)) := by
  refine ⟨fun hmarker hattribute hname => ?_, Marker.recognises_iff_of_mem⟩
  have hrecognised : c.interpreter.isMarker a = true := by
    rcases hname with hfull | ⟨hne, hshort⟩
    · have hsame : a.simpleName = a.className := simpleName_eq_self hattribute
      exact Marker.recognises_iff.2 (.inl (hsame.symm.trans hfull))
    · exact Marker.recognises_of_shortName hshort hne hmarker hattribute
  refine ⟨hrecognised, fun model m declared hdeclared ha => ?_⟩
  exact Interpreter.trust_eq_trustAllCalls_iff.2 ⟨declared, hdeclared, a, ha, hrecognised⟩

/-- The conventions that only name another marker. -/
def withMarker (name : String) : Conventions := { default with trustAllMarker := name }

/-- The marker has the ending, and the attribute is written without it. -/
theorem shortened_marker_is_trusted :
    let c := withMarker "MakeSafeAttribute"
    let a : Attribute := ⟨"MakeSafe", []⟩
    let declared : Symbol := .method ⟨"Acme.Setup", "Trusted", [], [], [], false, none, none, [a]⟩
    let m : MethodDeclaration := ⟨3, "Trusted", [], none, none, .zero⟩
    c.interpreter.isMarker a = true ∧
    (c.interpreter.trust ⟨fun _ => none, fun _ => some declared⟩ m).answer = .trustAllCalls ∧
    c.interpreter.isMarker ⟨"Other.MakeSafeAttribute", []⟩ = false := by
  intro c a declared m
  obtain ⟨hrecognised, htrusted⟩ := (marked_methods_are_trusted c a).1 (by decide) (by decide)
    (.inr ⟨by decide, by decide⟩)
  refine ⟨hrecognised, htrusted _ m declared rfl List.mem_cons_self, ?_⟩
  have hother := (marked_methods_are_trusted c ⟨"Other.MakeSafeAttribute", []⟩).2 (by decide)
  rw [Bool.eq_false_iff, ne_eq, hother]
  decide

/-- With a marker that is configured by its simple name, neither the attribute in some namespace nor
the attribute that has the ending is the marker. -/
theorem simple_marker_is_not_recognised :
    let c := withMarker "MakeSafe"
    let resolved : Attribute := ⟨"Acme.MakeSafe", []⟩
    let ended : Attribute := ⟨"MakeSafeAttribute", []⟩
    c.validate = .ok () ∧ '.' ∉ c.trustAllMarker.toList ∧
    resolved.simpleName = c.trustAllMarker ∧ c.interpreter.isMarker resolved = false ∧
    ended.simpleName = c.trustAllMarker ++ Marker.ending ∧ c.interpreter.isMarker ended = false := by
  have hvalid : (withMarker "MakeSafe").validate = .ok () := rfl
  exact ⟨hvalid, by decide, by decide, by decide, by decide, by decide⟩

end Conventions

end SafeCalls
