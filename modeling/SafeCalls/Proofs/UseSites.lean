import Mathlib.Logic.Relation
import SafeCalls.Symbol.Key

namespace SafeCalls

/-!
# Uses and declarations

A symbol at a use site is a chain of layers, each with the spellings of one view of the same
member. Following the links of a chain ends at a layer without links, the declaration, and the key
of the symbol is spelled from this layer alone. So uses of one declaration have one key, whatever
they are spelled like.
-/

open Relation (ReflTransGen)

theorem eq_of_chain {α β : Type} {link : α → α → Prop} {view : α → β}
    (hlink : ∀ s next, link s next → view s = view next) {s last : α}
    (h : ReflTransGen link s last) : view s = view last := by
  induction h with
  | refl => rfl
  | tail _ hlast ih => exact ih.trans (hlink _ _ hlast)

namespace Parameter

theorem map_type_eq_of_map_eq {ps qs : List Parameter}
    (h : ps.map (fun p => (p.refKind, p.typeName)) = qs.map fun p => (p.refKind, p.typeName)) :
    ps.map type = qs.map type := by
  have hmapped := congrArg (List.map fun part => ParameterType.mk part.1 part.2) h
  rwa [List.map_map, List.map_map] at hmapped

end Parameter

namespace MethodSymbol

variable {m next d : MethodSymbol}

/-- The link that is followed from a layer. A reduced call is undone before a construction is. -/
inductive LinksTo : MethodSymbol → MethodSymbol → Prop
  | reduction {m next : MethodSymbol} (h : m.reducedFrom = some next) : LinksTo m next
  | construction {m next : MethodSymbol} (hreduced : m.reducedFrom = none)
      (h : m.genericDefinition = some next) : LinksTo m next

/-- A layer with neither link. -/
def IsDeclaration (m : MethodSymbol) : Prop :=
  m.reducedFrom = none ∧ m.genericDefinition = none

/-- What hangs on a reduced call beside the unreduced one does not count. -/
theorem definition_of_reduction (h : m.reducedFrom = some next) :
    m.definition = next.definition := by
  cases m
  cases h
  rfl

theorem definition_of_construction (hreduced : m.reducedFrom = none)
    (h : m.genericDefinition = some next) : m.definition = next.definition := by
  cases m
  cases hreduced
  cases h
  rfl

theorem IsDeclaration.definition_eq (h : m.IsDeclaration) : m.definition = m := by
  obtain ⟨hreduced, hgeneric⟩ := h
  cases m
  cases hreduced
  cases hgeneric
  rfl

theorem LinksTo.definition_eq (h : m.LinksTo next) : m.definition = next.definition := by
  cases h with
  | reduction h => exact definition_of_reduction h
  | construction hreduced h => exact definition_of_construction hreduced h

theorem chain_to_definition (m : MethodSymbol) :
    ReflTransGen LinksTo m m.definition ∧ m.definition.IsDeclaration := by
  -- The cases are those of the definition: a reduced call, a construction, and the declaration.
  fun_induction definition m with
  | case1 containingType name typeParameters parameters typeArguments isStatic generic attributes
      unreduced ih => exact ⟨.head (.reduction rfl) ih.1, ih.2⟩
  | case2 containingType name typeParameters parameters typeArguments isStatic attributes generic
      ih => exact ⟨.head (.construction rfl rfl) ih.1, ih.2⟩
  | case3 => exact ⟨.refl, rfl, rfl⟩

/-- The definition is where the chain ends, whichever links there are. -/
theorem definition_eq_iff :
    m.definition = d ↔ ReflTransGen LinksTo m d ∧ d.IsDeclaration := by
  refine ⟨?_, fun ⟨hchain, hdeclared⟩ => ?_⟩
  · rintro rfl
    exact m.chain_to_definition
  · rw [eq_of_chain (fun _ _ hlink => hlink.definition_eq) hchain, hdeclared.definition_eq]

theorem definition_definition (m : MethodSymbol) : m.definition.definition = m.definition :=
  m.chain_to_definition.2.definition_eq

/-- Whether two declarations agree on everything that a key is spelled from. -/
structure SharesSpelling (d e : MethodSymbol) : Prop where
  containingType : d.containingType = e.containingType
  name : d.name = e.name
  typeParameters : d.typeParameters = e.typeParameters
  parameters : d.parameters.map (fun p => (p.refKind, p.typeName)) =
    e.parameters.map fun p => (p.refKind, p.typeName)

theorem identity_definition (m : MethodSymbol) : m.definition.identity = m.identity := by
  rw [identity, identity, m.definition_definition]

theorem SharesSpelling.identity_eq {n : MethodSymbol}
    (h : m.definition.SharesSpelling n.definition) : m.identity = n.identity := by
  rw [identity, identity, h.containingType, h.name, h.typeParameters,
    Parameter.map_type_eq_of_map_eq h.parameters]

end MethodSymbol

namespace PropertySymbol

variable {p next d : PropertySymbol}

/-- The link that is followed from a layer. -/
def LinksTo (p next : PropertySymbol) : Prop := p.genericDefinition = some next

theorem LinksTo.definition_eq (h : p.LinksTo next) : p.definition = next.definition := by
  cases p
  cases h
  rfl

theorem definition_of_unlinked (h : p.genericDefinition = none) : p.definition = p := by
  cases p
  cases h
  rfl

theorem chain_to_definition (p : PropertySymbol) :
    ReflTransGen LinksTo p p.definition ∧ p.definition.genericDefinition = none := by
  fun_induction definition p with
  | case1 containingType name parameters isIndexer isStatic attributes generic ih =>
      exact ⟨.head rfl ih.1, ih.2⟩
  | case2 => exact ⟨.refl, rfl⟩

theorem definition_eq_iff :
    p.definition = d ↔ ReflTransGen LinksTo p d ∧ d.genericDefinition = none := by
  refine ⟨?_, fun ⟨hchain, hdeclared⟩ => ?_⟩
  · rintro rfl
    exact p.chain_to_definition
  · rw [eq_of_chain (fun _ _ hlink => hlink.definition_eq) hchain, definition_of_unlinked hdeclared]

theorem definition_definition (p : PropertySymbol) : p.definition.definition = p.definition :=
  definition_of_unlinked p.chain_to_definition.2

/-- Whether two declarations agree on everything that a key is spelled from: indexers may have
different names, and ordinary properties different parameters. -/
structure SharesSpelling (d e : PropertySymbol) : Prop where
  containingType : d.containingType = e.containingType
  isIndexer : d.isIndexer = e.isIndexer
  name : d.isIndexer = false → d.name = e.name
  parameters : d.isIndexer = true → d.parameters.map (fun p => (p.refKind, p.typeName)) =
    e.parameters.map fun p => (p.refKind, p.typeName)

theorem identity_definition (p : PropertySymbol) : p.definition.identity = p.identity := by
  rw [identity, identity, p.definition_definition]

theorem SharesSpelling.identity_eq {q : PropertySymbol}
    (h : p.definition.SharesSpelling q.definition) : p.identity = q.identity := by
  rw [identity, identity, h.containingType, ← h.isIndexer]
  cases hkind : p.definition.isIndexer with
  | false => simp [h.name hkind]
  | true => simp [Parameter.map_type_eq_of_map_eq (h.parameters hkind)]

end PropertySymbol

namespace Symbol

/-- A key never depends on the use site. The definition of a symbol is the layer without links that
its chain leads to, and it has the key of the symbol. Two symbols have the same key as soon as
their definitions agree on what a key is spelled from, whatever all else in their layers is. -/
theorem key_is_that_of_definition :
    (∀ m : MethodSymbol,
      (∀ d, m.definition = d ↔ ReflTransGen MethodSymbol.LinksTo m d ∧ d.IsDeclaration) ∧
      m.definition.definition = m.definition ∧
      ∃ key, (method m).canonicalKey? = some key ∧
        (method m.definition).canonicalKey? = some key ∧
        ∀ n : MethodSymbol, m.definition.SharesSpelling n.definition →
          (method n).canonicalKey? = some key) ∧
    ∀ p : PropertySymbol,
      (∀ d, p.definition = d ↔
        ReflTransGen PropertySymbol.LinksTo p d ∧ d.genericDefinition = none) ∧
      p.definition.definition = p.definition ∧
      ∃ key, (property p).canonicalKey? = some key ∧
        (property p.definition).canonicalKey? = some key ∧
        ∀ q : PropertySymbol, p.definition.SharesSpelling q.definition →
          (property q).canonicalKey? = some key := by
  refine ⟨fun m => ?_, fun p => ?_⟩
  · refine ⟨fun d => MethodSymbol.definition_eq_iff, m.definition_definition,
      m.identity.canonicalKey, rfl, ?_, fun n hshared => ?_⟩
    · rw [← m.identity_definition]
      rfl
    · rw [hshared.identity_eq]
      rfl
  · refine ⟨fun d => PropertySymbol.definition_eq_iff, p.definition_definition,
      p.identity.canonicalKey, rfl, ?_, fun q hshared => ?_⟩
    · rw [← p.identity_definition]
      rfl
    · rw [hshared.identity_eq]
      rfl

/-- An extension method that is called on an instance, where the call also has a construction of
its own, and the same method called by its full name; and an indexer under two names. -/
theorem sum_has_one_key :
    let declared : MethodSymbol := ⟨"Linq.Enumerable", "Sum", ["T"],
      [⟨"source", "IEnumerable<T>", .byValue⟩, ⟨"total", "T", .byRef⟩], [], true, none, none, []⟩
    let stray : MethodSymbol := ⟨"Linq.Other", "Sum", [], [], [], false, none, none, []⟩
    let reduced : MethodSymbol := ⟨"IEnumerable<int>", "Sum", [], [⟨"total", "int", .byRef⟩],
      ["int"], false, some stray, some declared, []⟩
    let full : MethodSymbol := ⟨"Linq.Enumerable", "Sum", ["T"],
      [⟨"xs", "IEnumerable<string>", .byValue⟩, ⟨"y", "string", .byRef⟩], ["string"], true,
      some { declared with
        parameters := [⟨"xs", "IEnumerable<T>", .byValue⟩, ⟨"y", "T", .byRef⟩]
        attributes := [⟨"Pure", []⟩] }, none, []⟩
    let item : PropertySymbol := ⟨"Acme.Grid<T>", "Item", [⟨"row", "int", .byValue⟩], true, false,
      none, []⟩
    let cell : PropertySymbol := ⟨"Acme.Grid<int>", "Cell", [⟨"i", "int", .byValue⟩], true, false,
      some { item with name := "Cell", parameters := [⟨"i", "int", .byValue⟩] }, []⟩
    (reduced.definition.SharesSpelling full.definition ∧
      (method reduced).canonicalKey? = (method full).canonicalKey?) ∧
    item.definition.SharesSpelling cell.definition ∧
      (property item).canonicalKey? = (property cell).canonicalKey? := by
  intro declared stray reduced full item cell
  have hmethods : reduced.definition.SharesSpelling full.definition := ⟨rfl, rfl, rfl, rfl⟩
  have hproperties : item.definition.SharesSpelling cell.definition :=
    ⟨rfl, rfl, fun h => absurd h (by decide), fun _ => rfl⟩
  obtain ⟨hmethod, hproperty⟩ := key_is_that_of_definition
  obtain ⟨-, -, key, hreduced, -, hfull⟩ := hmethod reduced
  obtain ⟨-, -, key', hitem, -, hcell⟩ := hproperty item
  exact ⟨⟨hmethods, hreduced.trans (hfull full hmethods).symm⟩, hproperties,
    hitem.trans (hcell cell hproperties).symm⟩

end Symbol

end SafeCalls
