import SafeCalls.Proofs.Nesting
import SafeCalls.Symbol.Key

namespace SafeCalls

/-!
# Keys tell declarations apart

The type that contains a member may be spelled in any way, so a key is read from its end: the last
bracket that is left open begins the parameters, the one before it the type parameters, and the
last dot before both begins the name.
-/

open Nesting

def isComma (c : Char) : Bool := c == ','

def isCommaOrBlank (c : Char) : Bool := c == ',' || c == ' '

def isNameCharacter (c : Char) : Bool :=
  !(opens c || closes c || isCommaOrBlank c || c == '.')

/-- The name of a member or of a type parameter, as it is declared. -/
def isName (name : String) : Bool := name != "" && name.toList.all isNameCharacter

/-- The spelling of a type. Any text counts in which commas and blanks stand inside of brackets
only and in which no bracket is left open or closed too early, even by one of another shape. -/
def isTypeName (typeName : String) : Bool :=
  typeName != "" && nests isCommaOrBlank 0 typeName.toList

/-- Whether the names in a declaration can be told from the punctuation of its key. -/
def MemberIdentity.isSpelled : MemberIdentity → Bool
  | .method name typeParameters parameters =>
      isName name && typeParameters.all isName &&
        parameters.all fun p => isTypeName p.typeName
  | .property name => isName name
  | .indexer parameters => parameters.all fun p => isTypeName p.typeName

section Names

variable {name : String} {c : Char}

theorem ne_nil_of_isName (h : isName name = true) : name.toList ≠ [] := by
  intro hnil
  have hname : name = "" := String.toList_injective (by simpa using hnil)
  simp [isName, hname] at h

theorem isNameCharacter_of_mem (h : isName name = true) (hc : c ∈ name.toList) :
    isNameCharacter c = true := by
  rw [isName, Bool.and_eq_true, List.all_eq_true] at h
  exact h.2 c hc

theorem nests_of_isName (h : isName name = true) : nests isComma 0 name.toList = true := by
  have hall : ∀ c ∈ name.toList, isNameCharacter c = true :=
    fun c hc => isNameCharacter_of_mem h hc
  generalize name.toList = w at hall
  induction w with
  | nil => rfl
  | cons c w ih =>
      have hc := hall c List.mem_cons_self
      simp only [isNameCharacter, isCommaOrBlank, Bool.not_eq_true', Bool.or_eq_false_iff] at hc
      rw [nests_cons_of_neither hc.1.1.1 hc.1.1.2]
      exact ⟨.inr hc.1.2.1, ih fun d hd => hall d (List.mem_cons_of_mem c hd)⟩

end Names

def IsItem (item : List Char) : Prop := item ≠ [] ∧ nests isComma 0 item = true

section Lists

/-- What follows the first item of a list. -/
def furtherItems : List (List Char) → List Char
  | [] => []
  | item :: more => [',', ' '] ++ [',', ' '].intercalate (item :: more)

theorem intercalate_cons (item : List Char) (more : List (List Char)) :
    [',', ' '].intercalate (item :: more) = item ++ furtherItems more := by
  cases more with
  | nil => simp [furtherItems]
  | cons next more => rw [List.intercalate_cons_cons, furtherItems, List.append_assoc]

theorem eq_comma_of_mem_head? {items : List (List Char)} {c : Char}
    (hc : c ∈ (furtherItems items).head?) : c = ',' := by
  cases items with
  | nil => cases hc
  | cons item more => simpa [furtherItems, eq_comm] using hc

theorem intercalate_eq_of_furtherItems_eq {items others : List (List Char)}
    (h : furtherItems items = furtherItems others) :
    [',', ' '].intercalate items = [',', ' '].intercalate others := by
  cases items with
  | nil =>
      cases others with
      | nil => rfl
      | cons v others => cases h
  | cons u items =>
      cases others with
      | nil => cases h
      | cons v others => exact List.append_cancel_left h

theorem intercalate_injective {items others : List (List Char)} (hi : ∀ u ∈ items, IsItem u)
    (ho : ∀ v ∈ others, IsItem v)
    (h : [',', ' '].intercalate items = [',', ' '].intercalate others) : items = others := by
  induction items generalizing others with
  | nil =>
      cases others with
      | nil => rfl
      | cons v others =>
          rw [intercalate_cons, List.intercalate_nil, eq_comm, List.append_eq_nil_iff] at h
          exact absurd h.1 (ho v List.mem_cons_self).1
  | cons u items ih =>
      have hu := hi u List.mem_cons_self
      cases others with
      | nil =>
          rw [intercalate_cons, List.intercalate_nil, List.append_eq_nil_iff] at h
          exact absurd h.1 hu.1
      | cons v others =>
          have hv := ho v List.mem_cons_self
          rw [intercalate_cons, intercalate_cons] at h
          obtain ⟨rfl, hfurther⟩ := cut_before_separator rfl rfl rfl hu.2 hv.2
            (fun c hc => eq_comma_of_mem_head? hc) (fun c hc => eq_comma_of_mem_head? hc) h
          have htail : items = others :=
            ih (fun t ht => hi t (List.mem_cons_of_mem u ht))
              (fun w hw => ho w (List.mem_cons_of_mem u hw))
              (intercalate_eq_of_furtherItems_eq hfurther)
          rw [htail]

theorem nests_intercalate {items : List (List Char)} (hi : ∀ u ∈ items, IsItem u) :
    nests (fun _ => false) 0 ([',', ' '].intercalate items) = true := by
  induction items with
  | nil => rfl
  | cons u items ih =>
      rw [intercalate_cons]
      have hu : nests (fun _ => false) 0 u = true :=
        nests_mono (fun c hc => by cases hc) (hi u List.mem_cons_self).2
      refine nests_append (k := 0) hu ?_
      cases items with
      | nil => rfl
      | cons t items => exact ih fun v hv => hi v (List.mem_cons_of_mem u hv)

theorem commaSeparated_toList (parts : List String) :
    (commaSeparated parts).toList = [',', ' '].intercalate (parts.map String.toList) := by
  rw [commaSeparated, String.toList_intercalate]
  rfl

theorem commaSeparated_injective {parts others : List String}
    (hp : ∀ part ∈ parts, IsItem part.toList) (ho : ∀ part ∈ others, IsItem part.toList)
    (h : (commaSeparated parts).toList = (commaSeparated others).toList) : parts = others := by
  rw [commaSeparated_toList, commaSeparated_toList] at h
  rw [← List.map_inj_right fun _ _ hpart => String.toList_injective hpart]
  apply intercalate_injective _ _ h
  · simpa using hp
  · simpa using ho

theorem nests_commaSeparated {parts : List String} (hp : ∀ part ∈ parts, IsItem part.toList) :
    nests (fun _ => false) 0 (commaSeparated parts).toList = true := by
  rw [commaSeparated_toList]
  apply nests_intercalate
  simpa using hp

end Lists

theorem isItem_of_isName {name : String} (h : isName name = true) : IsItem name.toList :=
  ⟨ne_nil_of_isName h, nests_of_isName h⟩

namespace RefKind

variable {k l : RefKind} {u v : List Char}

/-- A keyword does not begin a type, which has no blank outside of brackets. -/
theorem not_nests_keyword_append (hk : k ≠ byValue) (u : List Char) :
    ¬ nests isCommaOrBlank 0 (k.keyword.toList ++ u) = true := by
  cases k with
  | byValue => exact absurd rfl hk
  | byRef => exact not_nests_of_append (u := ['r', 'e', 'f']) (c := ' ') rfl rfl rfl rfl
  | byOut => exact not_nests_of_append (u := ['o', 'u', 't']) (c := ' ') rfl rfl rfl rfl
  | byIn => exact not_nests_of_append (u := ['i', 'n']) (c := ' ') rfl rfl rfl rfl

theorem eq_of_keyword_append (hu : nests isCommaOrBlank 0 u = true)
    (hv : nests isCommaOrBlank 0 v = true)
    (h : k.keyword.toList ++ u = l.keyword.toList ++ v) : k = l := by
  by_cases hk : k = byValue
  · by_cases hl : l = byValue
    · rw [hk, hl]
    · subst hk
      have hu' : u = l.keyword.toList ++ v := h
      rw [hu'] at hu
      exact absurd hu (not_nests_keyword_append hl v)
  · by_cases hl : l = byValue
    · subst hl
      have hv' : k.keyword.toList ++ u = v := h
      rw [← hv'] at hv
      exact absurd hv (not_nests_keyword_append hk u)
    · -- The keywords begin with different letters.
      have hhead := congrArg List.head? h
      cases k <;> cases l <;> first | rfl | contradiction | cases hhead

end RefKind

namespace ParameterType

variable {p q : ParameterType}

theorem spelled_toList (p : ParameterType) :
    p.spelled.toList = p.refKind.keyword.toList ++ p.typeName.toList := by
  rw [spelled, String.toList_append]

theorem isItem_spelled (hp : isTypeName p.typeName = true) : IsItem p.spelled.toList := by
  rw [isTypeName, Bool.and_eq_true, bne_iff_ne] at hp
  rw [spelled_toList]
  refine ⟨?_, ?_⟩
  · intro hnil
    have hname := (List.append_eq_nil_iff.1 hnil).2
    exact hp.1 (String.toList_injective (by simpa using hname))
  · have hkeyword : nests isComma 0 p.refKind.keyword.toList = true := by
      cases p.refKind with
      | byValue => rfl
      | byRef => rfl
      | byOut => rfl
      | byIn => rfl
    have hname : nests isComma 0 p.typeName.toList = true :=
      nests_mono (fun c hc => by rw [isCommaOrBlank, ← isComma, hc, Bool.true_or]) hp.2
    exact nests_append hkeyword hname

theorem spelled_injective (hp : isTypeName p.typeName = true) (hq : isTypeName q.typeName = true)
    (h : p.spelled = q.spelled) : p = q := by
  rw [isTypeName, Bool.and_eq_true] at hp hq
  have htext := congrArg String.toList h
  rw [spelled_toList, spelled_toList] at htext
  have hkind := RefKind.eq_of_keyword_append hp.2 hq.2 htext
  rw [hkind, List.append_cancel_left_eq] at htext
  have hname := String.toList_injective htext
  cases p
  cases q
  cases hkind
  cases hname
  rfl

theorem isItem_of_mem_map {ps : List ParameterType}
    (hp : ∀ p ∈ ps, isTypeName p.typeName = true) :
    ∀ part ∈ ps.map spelled, IsItem part.toList := by
  intro part hpart
  obtain ⟨p, hmem, rfl⟩ := List.mem_map.1 hpart
  exact isItem_spelled (hp p hmem)

theorem map_spelled_injective {ps qs : List ParameterType}
    (hp : ∀ p ∈ ps, isTypeName p.typeName = true) (hq : ∀ q ∈ qs, isTypeName q.typeName = true)
    (h : ps.map spelled = qs.map spelled) : ps = qs := by
  induction ps generalizing qs with
  | nil =>
      rw [List.map_nil, eq_comm, List.map_eq_nil_iff] at h
      exact h.symm
  | cons p ps ih =>
      cases qs with
      | nil => cases h
      | cons q qs =>
          rw [List.map_cons, List.map_cons, List.cons.injEq] at h
          have hhead : p = q :=
            spelled_injective (hp p List.mem_cons_self) (hq q List.mem_cons_self) h.1
          have htail : ps = qs :=
            ih (fun r hr => hp r (List.mem_cons_of_mem _ hr))
              (fun r hr => hq r (List.mem_cons_of_mem _ hr)) h.2
          rw [hhead, htail]

end ParameterType

section Cuts

variable {xs ys : List Char} {name other : String}

/-- The bracket that a text ends with, if it ends with a closing one. -/
def closing? (w : List Char) : Option Char := w.getLast?.filter closes

theorem closing?_concat {c : Char} (hc : closes c = true) (w : List Char) :
    closing? (w ++ [c]) = some c := by
  rw [closing?, List.getLast?_concat, Option.filter_some, if_pos hc]

theorem closing?_append_name (h : isName name = true) (w : List Char) :
    closing? (w ++ name.toList) = none := by
  have hne := ne_nil_of_isName h
  have hlast := isNameCharacter_of_mem h (List.getLast_mem hne)
  simp only [isNameCharacter, Bool.not_eq_true', Bool.or_eq_false_iff] at hlast
  rw [closing?, List.getLast?_append, List.getLast?_eq_some_getLast hne, Option.some_or,
    Option.filter_some, hlast.1.1.2]
  rfl

/-- The last dot is the one in front of the name. -/
theorem cut_before_name (hn : isName name = true) (ho : isName other = true)
    (h : xs ++ '.' :: name.toList = ys ++ '.' :: other.toList) : xs = ys ∧ name = other := by
  have hdot : ∀ {name : String} {w : List Char}, isName name = true →
      ¬ ('.' :: w) <:+ name.toList := by
    intro name w hname hsuffix
    have hc := isNameCharacter_of_mem hname (hsuffix.subset List.mem_cons_self)
    revert hc
    decide
  obtain ⟨hxs, -, hname⟩ := cut_unique (hdot hn) (hdot ho) h
  exact ⟨hxs, String.toList_injective hname⟩

def bracketed (c : Char) (parts : List String) (d : Char) : List Char :=
  c :: (commaSeparated parts).toList ++ [d]

theorem closing?_append_bracketed {c d : Char} (hd : closes d = true) (parts : List String) :
    closing? (xs ++ bracketed c parts d) = some d := by
  rw [bracketed, ← List.append_assoc, closing?_concat hd]

theorem cut_before_bracketed {c d : Char} {parts others : List String} (hc : opens c = true)
    (hp : ∀ part ∈ parts, IsItem part.toList) (ho : ∀ part ∈ others, IsItem part.toList)
    (h : xs ++ bracketed c parts d = ys ++ bracketed c others d) : xs = ys ∧ parts = others := by
  rw [bracketed, bracketed, ← List.append_assoc, ← List.append_assoc,
    List.append_cancel_right_eq] at h
  obtain ⟨hxs, -, hlist⟩ :=
    cut_before_nested hc hc (nests_commaSeparated hp) (nests_commaSeparated ho) h
  exact ⟨hxs, commaSeparated_injective hp ho hlist⟩

/-- The type parameters of a method with the brackets around them, which are left out if there is
none. -/
def angled : List String → List Char
  | [] => []
  | t :: ts => bracketed '<' (t :: ts) '>'

theorem cut_before_angled {ts us : List String} (hn : isName name = true)
    (ho : isName other = true) (ht : ∀ t ∈ ts, isName t = true) (hu : ∀ u ∈ us, isName u = true)
    (h : xs ++ '.' :: name.toList ++ angled ts = ys ++ '.' :: other.toList ++ angled us) :
    xs = ys ∧ name = other ∧ ts = us := by
  have hclosing := congrArg closing? h
  cases ts with
  | nil =>
      cases us with
      | nil =>
          rw [angled, List.append_nil, List.append_nil] at h
          obtain ⟨hxs, hname⟩ := cut_before_name hn ho h
          exact ⟨hxs, hname, rfl⟩
      | cons u us =>
          rw [angled, angled, List.append_nil, closing?_append_bracketed rfl, List.append_cons,
            closing?_append_name hn] at hclosing
          cases hclosing
  | cons t ts =>
      cases us with
      | nil =>
          rw [angled, angled, List.append_nil, closing?_append_bracketed rfl, List.append_cons,
            closing?_append_name ho] at hclosing
          cases hclosing
      | cons u us =>
          obtain ⟨hbefore, hlist⟩ := cut_before_bracketed rfl
            (fun t' ht' => isItem_of_isName (ht t' ht'))
            (fun u' hu' => isItem_of_isName (hu u' hu')) h
          obtain ⟨hxs, hname⟩ := cut_before_name hn ho hbefore
          exact ⟨hxs, hname, hlist⟩

end Cuts

namespace MemberIdentity

theorem append_method (w : List Char) (name : String) (ts : List String)
    (ps : List ParameterType) :
    w ++ '.' :: (method name ts ps).spelled.toList =
      w ++ '.' :: name.toList ++ angled ts ++
        bracketed '(' (ps.map ParameterType.spelled) ')' := by
  cases ts with
  | nil => simp [spelled, angled, bracketed]
  | cons t ts => simp [spelled, angled, bracketed]

theorem append_indexer (w : List Char) (ps : List ParameterType) :
    w ++ '.' :: (indexer ps).spelled.toList =
      w ++ ['.', 't', 'h', 'i', 's'] ++ bracketed '[' (ps.map ParameterType.spelled) ']' := by
  simp [spelled, bracketed]

def lastBracket? : MemberIdentity → Option Char
  | method _ _ _ => some ')'
  | property _ => none
  | indexer _ => some ']'

theorem closing?_append_spelled {m : MemberIdentity} (hm : m.isSpelled = true)
    (w : List Char) : closing? (w ++ '.' :: m.spelled.toList) = m.lastBracket? := by
  cases m with
  | method name ts ps => rw [append_method, closing?_append_bracketed rfl, lastBracket?]
  | property name =>
      rw [List.append_cons]
      exact closing?_append_name hm _
  | indexer ps => rw [append_indexer, closing?_append_bracketed rfl, lastBracket?]

theorem cut_before_spelled {m n : MemberIdentity} {xs ys : List Char} (hm : m.isSpelled = true)
    (hn : n.isSpelled = true) (h : xs ++ '.' :: m.spelled.toList = ys ++ '.' :: n.spelled.toList) :
    xs = ys ∧ m = n := by
  -- The last bracket, if there is one, tells which kind of member is spelled.
  have hkind : m.lastBracket? = n.lastBracket? := by
    rw [← closing?_append_spelled hm xs, ← closing?_append_spelled hn ys, h]
  cases m with
  | method name ts ps =>
      cases n with
      | method other us qs =>
          simp only [isSpelled, Bool.and_eq_true, List.all_eq_true] at hm hn
          rw [append_method, append_method] at h
          obtain ⟨hbefore, hlist⟩ := cut_before_bracketed rfl
            (ParameterType.isItem_of_mem_map hm.2) (ParameterType.isItem_of_mem_map hn.2) h
          obtain ⟨hxs, rfl, rfl⟩ := cut_before_angled hm.1.1 hn.1.1 hm.1.2 hn.1.2 hbefore
          obtain rfl := ParameterType.map_spelled_injective hm.2 hn.2 hlist
          exact ⟨hxs, rfl⟩
      | property other => cases hkind
      | indexer qs => cases hkind
  | property name =>
      cases n with
      | method other us qs => cases hkind
      | property other =>
          obtain ⟨hxs, rfl⟩ := cut_before_name hm hn h
          exact ⟨hxs, rfl⟩
      | indexer qs => cases hkind
  | indexer ps =>
      cases n with
      | method other us qs => cases hkind
      | property other => cases hkind
      | indexer qs =>
          simp only [isSpelled, List.all_eq_true] at hm hn
          rw [append_indexer, append_indexer] at h
          obtain ⟨hbefore, hlist⟩ := cut_before_bracketed rfl
            (ParameterType.isItem_of_mem_map hm) (ParameterType.isItem_of_mem_map hn) h
          obtain rfl := ParameterType.map_spelled_injective hm hn hlist
          exact ⟨List.append_cancel_right hbefore, rfl⟩

end MemberIdentity

theorem SymbolIdentity.canonicalKey_injective {i j : SymbolIdentity}
    (hi : i.member.isSpelled = true) (hj : j.member.isSpelled = true)
    (h : i.canonicalKey = j.canonicalKey) : i = j := by
  have htext : i.containingType.toList ++ '.' :: i.member.spelled.toList =
      j.containingType.toList ++ '.' :: j.member.spelled.toList := by
    simpa [canonicalKey] using congrArg (fun key => key.text.toList) h
  obtain ⟨htype, hmember⟩ := MemberIdentity.cut_before_spelled hi hj htext
  cases i
  cases j
  cases hmember
  cases String.toList_injective htype
  rfl

/-- A key stands for one declaration only, whatever the names in it are. -/
theorem Symbol.equal_keys_iff_same_declaration {s t : Symbol} {i j : SymbolIdentity}
    (hs : s.identity? = some i) (ht : t.identity? = some j) (hi : i.member.isSpelled = true)
    (hj : j.member.isSpelled = true) :
    ∃ k l, s.canonicalKey? = some k ∧ t.canonicalKey? = some l ∧ (k = l ↔ i = j) := by
  refine ⟨i.canonicalKey, j.canonicalKey, ?_, ?_, ?_, ?_⟩
  · rw [canonicalKey?, hs, Option.map_some]
  · rw [canonicalKey?, ht, Option.map_some]
  · exact SymbolIdentity.canonicalKey_injective hi hj
  · exact congrArg SymbolIdentity.canonicalKey

/-- A generic method, and its use as a reduced call of an overload that takes a tuple. -/
theorem Symbol.overloads_have_different_keys :
    let plain : MethodSymbol := ⟨"Acme.Box<K, V>", "Map", ["T", "U"],
      [⟨"a", "System.Func<T, U>[,]", .byRef⟩, ⟨"b", "T", .byValue⟩], ["int", "int"], true,
      none, none, []⟩
    let tuple : MethodSymbol := ⟨"Acme.Box<K, V>", "Map", ["T", "U"],
      [⟨"a", "(System.Func<T, U>[,], T)", .byRef⟩], ["T", "U"], true, none, none, []⟩
    let reduced : MethodSymbol := ⟨"Acme.Box<K, V>", "Map", [], [], [], false, none, some tuple, []⟩
    ∃ k l, (Symbol.method plain).canonicalKey? = some k ∧
      (Symbol.method reduced).canonicalKey? = some l ∧ k ≠ l := by
  intro plain tuple reduced
  obtain ⟨k, l, hk, hl, hiff⟩ := Symbol.equal_keys_iff_same_declaration
    (s := .method plain) (t := .method reduced) rfl rfl (by decide) (by decide)
  refine ⟨k, l, hk, hl, fun heq => ?_⟩
  have hsame := hiff.1 heq
  revert hsame
  decide

end SafeCalls
