import SafeCalls.Proofs.SnapshotForm
import SafeCalls.Snapshot.Document

namespace SafeCalls

/-!
# Sharing a document

Many callers may ask a document for its path, its tree, its model or its unit at once, while its
file changes, vanishes and comes back, and while some of them give up half-way. One of them at a
time reads the file, and the first content that is read to the end is kept. Until then the document
tells nothing but the path of its file, and from then on every answer is about that one content.
-/

/-- How far a request for the parts of a document has come. -/
inductive PartsRequest where
  | waiting
  | reading
  | holding (content : Except FileError String)
  | answered (parts : DocumentParts)

namespace PartsRequest

def isInitialising : PartsRequest → Bool
  | reading | holding _ => true
  | waiting | answered _ => false

/-- How many steps the request is away from its answer at most. -/
def distance : PartsRequest → Nat
  | waiting => 3
  | reading => 2
  | holding _ => 1
  | answered _ => 0

end PartsRequest

/-- What a caller waits for. The tree and the model of a unit are asked for side by side. -/
inductive Inquiry where
  | tree (request : PartsRequest)
  | model (request : PartsRequest)
  | unit (tree model : PartsRequest)

namespace Inquiry

def requests : Inquiry → List PartsRequest
  | tree r => [r]
  | model r => [r]
  | unit r r' => [r, r']

inductive Replaces (r r' : PartsRequest) : Inquiry → Inquiry → Prop
  | tree : Replaces r r' (tree r) (tree r')
  | model : Replaces r r' (model r) (model r')
  | unitTree (q : PartsRequest) : Replaces r r' (unit r q) (unit r' q)
  | unitModel (q : PartsRequest) : Replaces r r' (unit q r) (unit q r')

end Inquiry

inductive DocumentEvent where
  /-- The file has another content, or none, from now on. -/
  | changed (content : Except FileError String)
  | asked
  | opened
  | read (content : Except FileError String)
  | kept (content : Except FileError String)
  | found
  | dropped
  | path (path : String)
  | tree (tree : Option SyntaxTree)
  | model (model : Option SemanticModel)
  | unit (unit : ConfigurationUnit)

/-- The answer that an inquiry gets once its requests have theirs. The path in a unit is the one that
the document has at that moment. -/
inductive Inquiry.Answers (d : SnapshotDocument) : Inquiry → DocumentEvent → Prop
  | tree (p : DocumentParts) : Answers d (.tree (.answered p)) (.tree p.tree)
  | model (p : DocumentParts) : Answers d (.model (.answered p)) (.model p.model)
  | unit (p q : DocumentParts) :
      Answers d (.unit (.answered p) (.answered q)) (.unit ⟨d.path, p.tree, q.model⟩)

structure SharedDocument where
  /-- What reading the file would give at the moment. -/
  content : Except FileError String
  document : SnapshotDocument
  inquiries : List Inquiry

namespace SharedDocument

def start (file : FilePath) (content : Except FileError String) : SharedDocument :=
  ⟨content, .ofFile file, []⟩

def requests (s : SharedDocument) : List PartsRequest := s.inquiries.flatMap Inquiry.requests

/-- How many requests are about to read the file or hold what they have read. -/
def initialising (s : SharedDocument) : Nat := s.requests.countP PartsRequest.isInitialising

end SharedDocument

/-- A step of one request, and the document after it. The file is opened only if nothing is kept
and nobody else is about to read it. -/
inductive PartsRequest.Step (s : SharedDocument) :
    PartsRequest → DocumentEvent → PartsRequest → SnapshotDocument → Prop
  | opens (hparts : s.document.parts = none)
      (hfree : ∀ r ∈ s.requests, r.isInitialising = false) :
      Step s .waiting .opened .reading s.document
  | reads : Step s .reading (.read s.content) (.holding s.content) s.document
  | keeps {content : Except FileError String} {parts : DocumentParts}
      (hparts : (s.document.fill content).parts = some parts) :
      Step s (.holding content) (.kept content) (.answered parts) (s.document.fill content)
  | finds {parts : DocumentParts} (hparts : s.document.parts = some parts) :
      Step s .waiting .found (.answered parts) s.document

namespace SharedDocument

inductive Step : SharedDocument → DocumentEvent → SharedDocument → Prop
  | change {s : SharedDocument} (content : Except FileError String) :
      Step s (.changed content) { s with content }
  | ask {s : SharedDocument} {q : Inquiry} (hnew : ∀ r ∈ q.requests, r = .waiting) :
      Step s .asked { s with inquiries := q :: s.inquiries }
  | look {s : SharedDocument} : Step s (.path s.document.path) s
  | request {s : SharedDocument} (before after : List Inquiry) {q q' : Inquiry}
      {r r' : PartsRequest} {e : DocumentEvent} {d : SnapshotDocument}
      (hs : s.inquiries = before ++ q :: after) (hq : q.Replaces r r' q') (hr : r.Step s e r' d) :
      Step s e ⟨s.content, d, before ++ q' :: after⟩
  | answer {s : SharedDocument} (before after : List Inquiry) {q : Inquiry} {e : DocumentEvent}
      (hs : s.inquiries = before ++ q :: after) (hq : q.Answers s.document e) :
      Step s e { s with inquiries := before ++ after }
  | drop {s : SharedDocument} (before after : List Inquiry) {q : Inquiry}
      (hs : s.inquiries = before ++ q :: after) :
      Step s .dropped { s with inquiries := before ++ after }

/-- The events of a run, the last of them at the end. -/
inductive Run (s : SharedDocument) : List DocumentEvent → SharedDocument → Prop
  | nil : Run s [] s
  | snoc {events : List DocumentEvent} {e : DocumentEvent} {t u : SharedDocument}
      (h : Run s events t) (hstep : t.Step e u) : Run s (events ++ [e]) u

theorem Run.cons {s t u : SharedDocument} {e : DocumentEvent} {events : List DocumentEvent}
    (hstep : s.Step e t) (h : t.Run events u) : s.Run (e :: events) u := by
  induction h with
  | nil => exact .snoc .nil hstep
  | snoc h hlast ih => exact .snoc ih hlast

end SharedDocument

namespace DocumentEvent

/-- Before the file has been read to the end only its path is told. -/
def IsEarly (file : FilePath) : DocumentEvent → Prop
  | path p => p = file.text
  | kept _ | tree _ | model _ | unit _ => False
  | _ => True

/-- Afterwards the file is not read any more, and all answers are about one unit. -/
def IsLate (told : ConfigurationUnit) : DocumentEvent → Prop
  | path p => p = told.path
  | tree t => t = told.tree
  | model m => m = told.model
  | unit u => u = told
  | opened | read _ | kept _ => False
  | _ => True

/-- The content of the file after the event. -/
def contentAfter (content : Except FileError String) : DocumentEvent → Except FileError String
  | changed content => content
  | _ => content

/-- Whether the event brings some inquiry nearer to its answer, or is the answer. -/
def IsProgress : DocumentEvent → Prop
  | changed _ | asked | dropped | path _ => False
  | _ => True

end DocumentEvent

/-- The file was read with the given content, and at that moment it had this content. -/
def WasRead (initial content : Except FileError String) (events : List DocumentEvent) : Prop :=
  ∃ earlier later, events = earlier ++ .read content :: later ∧
    earlier.foldl DocumentEvent.contentAfter initial = content

theorem WasRead.concat {initial content : Except FileError String} {events : List DocumentEvent}
    (h : WasRead initial content events) (e : DocumentEvent) :
    WasRead initial content (events ++ [e]) := by
  obtain ⟨earlier, later, rfl, hcontent⟩ := h
  exact ⟨earlier, later ++ [e], by simp, hcontent⟩

/-- What a content of the file tells: the snapshot that it spells, or just the path of the file. -/
inductive SnapshotDocument.Tells (file : FilePath) :
    Except FileError String → ConfigurationUnit → Prop
  | snapshot {text : String} {s : UnitSnapshot} (h : UnitSnapshot.parse text = .ok s) :
      Tells file (.ok text) ⟨s.path, s.tree, s.model.map SymbolTable.model⟩
  | malformed {text : String} {e : Json.Error} (h : UnitSnapshot.parse text = .error e) :
      Tells file (.ok text) ⟨file.text, none, none⟩
  | unreadable {e : FileError} : Tells file (.error e) ⟨file.text, none, none⟩

namespace SnapshotDocument

theorem fill_ofFile (file : FilePath) (content : Except FileError String) :
    (ofFile file).fill content = ⟨file, some (.ofContent content)⟩ := rfl

theorem exists_parts_fill (d : SnapshotDocument) (content : Except FileError String) :
    ∃ parts, (d.fill content).parts = some parts := by
  obtain ⟨file, _ | parts⟩ := d
  · exact ⟨_, rfl⟩
  · exact ⟨parts, rfl⟩

theorem tells_unit (file : FilePath) (content : Except FileError String) :
    Tells file content ((ofFile file).fill content).unit := by
  rw [fill_ofFile]
  cases content with
  | error e => exact .unreadable
  | ok text =>
      cases hparse : UnitSnapshot.parse text with
      | error e =>
          simp only [unit, path, DocumentParts.ofContent, hparse]
          exact .malformed hparse
      | ok s =>
          simp only [unit, path, DocumentParts.ofContent, hparse]
          exact .snapshot hparse

end SnapshotDocument

theorem Inquiry.Replaces.exists_split {r r' : PartsRequest} {q q' : Inquiry}
    (h : q.Replaces r r' q') :
    ∃ xs ys, q.requests = xs ++ r :: ys ∧ q'.requests = xs ++ r' :: ys := by
  cases h with
  | tree => exact ⟨[], [], rfl, rfl⟩
  | model => exact ⟨[], [], rfl, rfl⟩
  | unitTree q => exact ⟨[], [q], rfl, rfl⟩
  | unitModel q => exact ⟨[q], [], rfl, rfl⟩

theorem Inquiry.exists_replaces {q : Inquiry} {r : PartsRequest} (h : r ∈ q.requests)
    (r' : PartsRequest) : ∃ q', q.Replaces r r' q' := by
  cases q with
  | tree q =>
      obtain rfl := List.mem_singleton.1 h
      exact ⟨_, .tree⟩
  | model q =>
      obtain rfl := List.mem_singleton.1 h
      exact ⟨_, .model⟩
  | unit q q' =>
      rcases List.mem_cons.1 h with rfl | h
      · exact ⟨_, .unitTree _⟩
      · obtain rfl := List.mem_singleton.1 h
        exact ⟨_, .unitModel _⟩

theorem Inquiry.exists_answers {q : Inquiry} (h : ∀ r ∈ q.requests, ∃ parts, r = .answered parts)
    (d : SnapshotDocument) : ∃ e, q.Answers d e ∧ e.IsProgress := by
  cases q with
  | tree r =>
      obtain ⟨p, rfl⟩ := h r List.mem_cons_self
      exact ⟨_, .tree p, trivial⟩
  | model r =>
      obtain ⟨p, rfl⟩ := h r List.mem_cons_self
      exact ⟨_, .model p, trivial⟩
  | unit r r' =>
      obtain ⟨p, rfl⟩ := h r List.mem_cons_self
      obtain ⟨p', rfl⟩ := h r' (List.mem_cons_of_mem _ List.mem_cons_self)
      exact ⟨_, .unit p p', trivial⟩

namespace SharedDocument

variable {file : FilePath} {initial : Except FileError String} {s s' : SharedDocument}
  {e : DocumentEvent} {events : List DocumentEvent}

/-! ### What a step can do -/

/-- What happens besides the steps of requests. -/
inductive Aside (s : SharedDocument) : DocumentEvent → Prop
  | changed (content : Except FileError String) : Aside s (.changed content)
  | asked : Aside s .asked
  | dropped : Aside s .dropped
  | path : Aside s (.path s.document.path)
  | answer {q : Inquiry} {e : DocumentEvent} (hq : q ∈ s.inquiries)
      (h : q.Answers s.document e) : Aside s e

theorem requests_of_split {before after : List Inquiry} {q : Inquiry}
    (hs : s.inquiries = before ++ q :: after) : s.requests =
      before.flatMap Inquiry.requests ++ (q.requests ++ after.flatMap Inquiry.requests) := by
  rw [requests, hs, List.flatMap_append, List.flatMap_cons]

section

variable {r r' : PartsRequest} {xs ys : List PartsRequest}
  (hs : s.requests = xs ++ r :: ys) (hs' : s'.requests = xs ++ r' :: ys)

include hs hs'

theorem mem_replace {q : PartsRequest} (hq : q ∈ s'.requests) : q = r' ∨ q ∈ s.requests := by
  rw [hs'] at hq
  rw [hs]
  rcases List.mem_append.1 hq with hq | hq
  · exact .inr (List.mem_append_left _ hq)
  · exact (List.mem_cons.1 hq).imp_right fun hq =>
      List.mem_append_right _ (List.mem_cons_of_mem _ hq)

theorem initialising_replace : s'.initialising + r.isInitialising.toNat =
    s.initialising + r'.isInitialising.toNat := by
  have htoNat : ∀ b : Bool, (if b then 1 else 0) = b.toNat := by decide
  rw [initialising, initialising, hs, hs', List.countP_append, List.countP_append, List.countP_cons,
    List.countP_cons, htoNat, htoNat]
  omega

end

/-- Either one request makes a step, or the document stays as it is and no request goes on. -/
theorem Step.cases (h : s.Step e s') :
    (∃ r r' xs ys, r.Step s e r' s'.document ∧ s.requests = xs ++ r :: ys ∧
      s'.requests = xs ++ r' :: ys) ∨
    (s.Aside e ∧ s'.document = s.document ∧ (∀ r ∈ s'.requests, r = .waiting ∨ r ∈ s.requests) ∧
      s'.initialising ≤ s.initialising) := by
  have hremoved : ∀ {before after : List Inquiry} {q : Inquiry},
      s.inquiries = before ++ q :: after →
        ((before ++ after).flatMap Inquiry.requests).Sublist s.requests := by
    intro before after q hs
    rw [requests_of_split hs, List.flatMap_append]
    exact (List.Sublist.refl _).append (List.sublist_append_right _ _)
  cases h with
  | change content => exact .inr ⟨.changed content, rfl, fun r hr => .inr hr, Nat.le_refl _⟩
  | @ask q hnew =>
      refine .inr ⟨.asked, rfl, fun r hr => ?_, ?_⟩
      · exact (List.mem_append.1 hr).imp_left (hnew r)
      · have hcount : q.requests.countP PartsRequest.isInitialising = 0 :=
          List.countP_eq_zero.2 fun r hr => by simp [hnew r hr, PartsRequest.isInitialising]
        simp [initialising, requests, hcount]
  | look => exact .inr ⟨.path, rfl, fun r hr => .inr hr, Nat.le_refl _⟩
  | @request before after q q' r r' e d hs hq hr =>
      obtain ⟨xs, ys, hq, hq'⟩ := hq.exists_split
      refine .inl ⟨r, r', before.flatMap Inquiry.requests ++ xs,
        ys ++ after.flatMap Inquiry.requests, hr, ?_, ?_⟩
      · simp [requests_of_split hs, hq]
      · simp [requests, hq']
  | answer before after hs hq =>
      have hmem : _ ∈ s.inquiries := hs ▸ List.mem_append_right _ List.mem_cons_self
      exact .inr ⟨.answer hmem hq, rfl, fun r hr => .inr ((hremoved hs).subset hr),
        (hremoved hs).countP_le⟩
  | drop before after hs =>
      exact .inr ⟨.dropped, rfl, fun r hr => .inr ((hremoved hs).subset hr),
        (hremoved hs).countP_le⟩

theorem Step.content_eq (h : s.Step e s') : s'.content = e.contentAfter s.content := by
  cases h with
  | change content => rfl
  | ask hnew => rfl
  | look => rfl
  | request before after hs hq hr => cases hr <;> rfl
  | answer before after hs hq => cases hq <;> rfl
  | drop before after hs => rfl

/-! ### What every step keeps -/

/-- Nothing has been read to the end. -/
structure Unread (file : FilePath) (initial : Except FileError String) (s : SharedDocument)
    (events : List DocumentEvent) : Prop where
  content_eq : s.content = events.foldl DocumentEvent.contentAfter initial
  document_eq : s.document = .ofFile file
  early : ∀ e ∈ events, e.IsEarly file
  not_answered : ∀ r ∈ s.requests, ∀ parts, r ≠ .answered parts
  wasRead_of_holding : ∀ content, .holding content ∈ s.requests → WasRead initial content events
  initialising_le : s.initialising ≤ 1

/-- The given content has been read to the end. -/
structure Loaded (file : FilePath) (initial : Except FileError String) (s : SharedDocument)
    (content : Except FileError String) (before after : List DocumentEvent) : Prop where
  document_eq : s.document = (SnapshotDocument.ofFile file).fill content
  wasRead : WasRead initial content before
  early : ∀ e ∈ before, e.IsEarly file
  late : ∀ e ∈ after, e.IsLate s.document.unit
  settled : ∀ r ∈ s.requests, r = .waiting ∨ r = .answered (.ofContent content)

inductive Sound (file : FilePath) (initial : Except FileError String) (s : SharedDocument) :
    List DocumentEvent → Prop
  | unread {events : List DocumentEvent} (h : s.Unread file initial events) :
      Sound file initial s events
  | loaded {content : Except FileError String} {before after : List DocumentEvent}
      (h : s.Loaded file initial content before after) :
      Sound file initial s (before ++ .kept content :: after)

theorem sound_start (file : FilePath) (initial : Except FileError String) :
    (start file initial).Sound file initial [] :=
  .unread ⟨rfl, rfl, by simp, by simp [requests, start], by simp [requests, start], Nat.zero_le 1⟩

/-- As long as nothing is read to the end, a request may only come to hold what is just read. -/
theorem Unread.extend (h : s.Unread file initial events) (hstep : s.Step e s')
    (hdocument : s'.document = s.document) (he : e.IsEarly file)
    (hrequests : ∀ r ∈ s'.requests, r = .waiting ∨ r = .reading ∨
      (r = .holding s.content ∧ e = .read s.content) ∨ r ∈ s.requests)
    (hcount : s'.initialising ≤ 1) : s'.Unread file initial (events ++ [e]) where
  content_eq := by rw [List.foldl_append, ← h.content_eq, hstep.content_eq]; rfl
  document_eq := hdocument.trans h.document_eq
  early := by
    rw [List.forall_mem_append, List.forall_mem_singleton]
    exact ⟨h.early, he⟩
  not_answered := by
    intro r hr parts
    rcases hrequests r hr with rfl | rfl | ⟨rfl, -⟩ | hr
    · simp
    · simp
    · simp
    · exact h.not_answered r hr parts
  wasRead_of_holding := by
    intro content hr
    rcases hrequests _ hr with heq | heq | ⟨heq, rfl⟩ | hr
    · cases heq
    · cases heq
    · obtain rfl := PartsRequest.holding.inj heq
      exact ⟨events, [], rfl, h.content_eq.symm⟩
    · exact (h.wasRead_of_holding content hr).concat e
  initialising_le := hcount

theorem Unread.aside (h : s.Unread file initial events) (hstep : s.Step e s')
    (haside : s.Aside e) (hdocument : s'.document = s.document)
    (hrequests : ∀ r ∈ s'.requests, r = .waiting ∨ r ∈ s.requests)
    (hcount : s'.initialising ≤ s.initialising) : s'.Unread file initial (events ++ [e]) := by
  apply h.extend hstep hdocument ?_ ?_ (Nat.le_trans hcount h.initialising_le)
  · cases haside with
    | changed content => trivial
    | asked => trivial
    | dropped => trivial
    | path =>
        rw [h.document_eq]
        rfl
    | @answer q e hq hanswers =>
        -- an inquiry is answered only when its requests are
        have hmem : ∀ r ∈ q.requests, r ∈ s.requests := fun r hr => List.mem_flatMap.2 ⟨q, hq, hr⟩
        cases hanswers with
        | tree p => exact absurd rfl (h.not_answered _ (hmem _ List.mem_cons_self) p)
        | model p => exact absurd rfl (h.not_answered _ (hmem _ List.mem_cons_self) p)
        | unit p q => exact absurd rfl (h.not_answered _ (hmem _ List.mem_cons_self) p)
  · intro r hr
    exact (hrequests r hr).imp_right fun hr => .inr (.inr hr)

theorem Unread.request (h : s.Unread file initial events) (hstep : s.Step e s')
    {r r' : PartsRequest} {xs ys : List PartsRequest} (hr : r.Step s e r' s'.document)
    (hs : s.requests = xs ++ r :: ys) (hs' : s'.requests = xs ++ r' :: ys) :
    s'.Sound file initial (events ++ [e]) := by
  have hreplaced := initialising_replace hs hs'
  have hcount := h.initialising_le
  generalize hdocument : s'.document = d at hr
  cases hr with
  -- The file is opened where nobody is about to read it, so afterwards one is.
  | opens hparts hfree =>
      have hnone : s.initialising = 0 := List.countP_eq_zero.2 fun r hr => by simp [hfree r hr]
      apply Sound.unread
      apply h.extend hstep hdocument trivial
      · intro q hq
        rcases mem_replace hs hs' hq with rfl | hq
        · exact .inr (.inl rfl)
        · exact .inr (.inr (.inr hq))
      · simp [PartsRequest.isInitialising] at hreplaced
        omega
  | reads =>
      apply Sound.unread
      apply h.extend hstep hdocument trivial
      · intro q hq
        rcases mem_replace hs hs' hq with rfl | hq
        · exact .inr (.inr (.inl ⟨rfl, rfl⟩))
        · exact .inr (.inr (.inr hq))
      · simp [PartsRequest.isInitialising] at hreplaced
        omega
  | @keeps content parts hparts =>
      rw [h.document_eq, SnapshotDocument.fill_ofFile] at hparts
      obtain rfl := Option.some.inj hparts
      have hmem : .holding content ∈ s.requests := hs ▸ List.mem_append_right _ List.mem_cons_self
      have hread := h.wasRead_of_holding content hmem
      apply Sound.loaded
      refine ⟨?_, hread, h.early, List.forall_mem_nil _, ?_⟩
      · rw [hdocument, h.document_eq]
      · -- nobody else was about to read the file, and nobody had an answer
        have hnone : s'.initialising = 0 := by
          simp [PartsRequest.isInitialising] at hreplaced
          omega
        intro q hq
        rcases mem_replace hs hs' hq with rfl | hold
        · exact .inr rfl
        · have hidle := List.countP_eq_zero.1 hnone q hq
          cases q with
          | waiting => exact .inl rfl
          | reading => exact absurd rfl hidle
          | holding content => exact absurd rfl hidle
          | answered parts => exact absurd rfl (h.not_answered _ hold parts)
  | finds hparts =>
      rw [h.document_eq] at hparts
      cases hparts

theorem Loaded.aside {content : Except FileError String} {before after : List DocumentEvent}
    (h : s.Loaded file initial content before after) (haside : s.Aside e)
    (hdocument : s'.document = s.document)
    (hrequests : ∀ r ∈ s'.requests, r = .waiting ∨ r ∈ s.requests) :
    s'.Loaded file initial content before (after ++ [e]) where
  document_eq := hdocument.trans h.document_eq
  wasRead := h.wasRead
  early := h.early
  late := by
    rw [hdocument, List.forall_mem_append, List.forall_mem_singleton]
    refine ⟨h.late, ?_⟩
    cases haside with
    | changed content => trivial
    | asked => trivial
    | dropped => trivial
    | path => rfl
    | @answer q e hq hanswers =>
        have hparts : ∀ parts, .answered parts ∈ q.requests → parts = .ofContent content := by
          intro parts hr
          rcases h.settled _ (List.mem_flatMap.2 ⟨q, hq, hr⟩) with heq | heq
          · cases heq
          · exact PartsRequest.answered.inj heq
        rw [h.document_eq]
        cases hanswers with
        | tree p =>
            rw [hparts p List.mem_cons_self]
            rfl
        | model p =>
            rw [hparts p List.mem_cons_self]
            rfl
        | unit p q =>
            rw [hparts p List.mem_cons_self, hparts q (List.mem_cons_of_mem _ List.mem_cons_self),
              h.document_eq]
            rfl
  settled := by
    intro r hr
    rcases hrequests r hr with rfl | hr
    · exact .inl rfl
    · exact h.settled r hr

theorem Loaded.request {content : Except FileError String} {before after : List DocumentEvent}
    (h : s.Loaded file initial content before after) {r r' : PartsRequest} {xs ys : List PartsRequest}
    (hr : r.Step s e r' s'.document) (hs : s.requests = xs ++ r :: ys)
    (hs' : s'.requests = xs ++ r' :: ys) : s'.Loaded file initial content before (after ++ [e]) := by
  have hmem : r ∈ s.requests := hs ▸ List.mem_append_right _ List.mem_cons_self
  have hkept : s.document.parts = some (.ofContent content) := by
    rw [h.document_eq]
    rfl
  generalize hdocument : s'.document = d at hr
  cases hr with
  | opens hparts hfree => cases hkept.symm.trans hparts
  | reads => rcases h.settled _ hmem with heq | heq <;> cases heq
  | keeps hparts => rcases h.settled _ hmem with heq | heq <;> cases heq
  | @finds parts hparts =>
      obtain rfl := Option.some.inj (hkept.symm.trans hparts)
      refine ⟨hdocument.trans h.document_eq, h.wasRead, h.early, ?_, ?_⟩
      · rw [hdocument, List.forall_mem_append, List.forall_mem_singleton]
        exact ⟨h.late, trivial⟩
      · intro q hq
        rcases mem_replace hs hs' hq with rfl | hq
        · exact .inr rfl
        · exact h.settled q hq

theorem Sound.step (h : s.Sound file initial events) (hstep : s.Step e s') :
    s'.Sound file initial (events ++ [e]) := by
  rcases hstep.cases with ⟨r, r', xs, ys, hr, hs, hs'⟩ | ⟨haside, hdocument, hrequests, hcount⟩
  · cases h with
    | unread h => exact h.request hstep hr hs hs'
    | @loaded content before after h =>
        rw [List.append_assoc, List.cons_append]
        exact .loaded (h.request hr hs hs')
  · cases h with
    | unread h => exact .unread (h.aside hstep haside hdocument hrequests hcount)
    | @loaded content before after h =>
        rw [List.append_assoc, List.cons_append]
        exact .loaded (h.aside haside hdocument hrequests)

theorem Run.sound (h : (start file initial).Run events s) : s.Sound file initial events := by
  induction h with
  | nil => exact sound_start file initial
  | snoc h hstep ih => exact ih.step hstep

/-! ### Every inquiry can come to its answer -/

def totalDistance : List PartsRequest → Nat
  | [] => 0
  | r :: more => r.distance + totalDistance more

theorem totalDistance_append (xs ys : List PartsRequest) :
    totalDistance (xs ++ ys) = totalDistance xs + totalDistance ys := by
  induction xs with
  | nil => simp [totalDistance]
  | cons r xs ih => simp [totalDistance, ih, Nat.add_assoc]

def remaining (s : SharedDocument) : Nat := totalDistance s.requests + s.inquiries.length

theorem exists_step_of_request {r r' : PartsRequest} {d : SnapshotDocument} (hmem : r ∈ s.requests)
    (hr : r.Step s e r' d) : ∃ s', s.Step e s' ∧ s'.remaining < s.remaining := by
  obtain ⟨q, hq, hrq⟩ := List.mem_flatMap.1 hmem
  obtain ⟨before, after, hs⟩ := List.append_of_mem hq
  obtain ⟨q', hreplaces⟩ := Inquiry.exists_replaces hrq r'
  refine ⟨_, .request before after hs hreplaces hr, ?_⟩
  obtain ⟨xs, ys, hq, hq'⟩ := hreplaces.exists_split
  have hcloser : r'.distance < r.distance := by cases hr <;> simp [PartsRequest.distance]
  rw [remaining, remaining, requests_of_split hs, hs, requests, hq]
  simp only [List.flatMap_append, List.flatMap_cons, hq', totalDistance_append, totalDistance,
    List.length_append, List.length_cons]
  omega

theorem exists_step_of_answers {q : Inquiry} {more : List Inquiry} (hs : s.inquiries = q :: more)
    (hq : q.Answers s.document e) : ∃ s', s.Step e s' ∧ s'.remaining < s.remaining := by
  refine ⟨_, .answer [] more hs hq, ?_⟩
  simp only [remaining, requests, hs, List.flatMap_cons, totalDistance_append, List.nil_append,
    List.length_cons]
  omega

theorem exists_progress (h : s.inquiries ≠ []) :
    ∃ e s', s.Step e s' ∧ e.IsProgress ∧ s'.remaining < s.remaining := by
  -- Whoever is about to read the file can go on. Otherwise somebody who waits can, and if nobody
  -- does, then an inquiry can be answered.
  by_cases hbusy : ∃ r ∈ s.requests, r.isInitialising = true
  · obtain ⟨r, hr, hinitialising⟩ := hbusy
    cases r with
    | waiting => cases hinitialising
    | answered parts => cases hinitialising
    | reading =>
        obtain ⟨s', hstep, hlt⟩ := exists_step_of_request hr .reads
        exact ⟨_, s', hstep, trivial, hlt⟩
    | holding content =>
        obtain ⟨parts, hparts⟩ := s.document.exists_parts_fill content
        obtain ⟨s', hstep, hlt⟩ := exists_step_of_request hr (.keeps hparts)
        exact ⟨_, s', hstep, trivial, hlt⟩
  · have hfree : ∀ r ∈ s.requests, r.isInitialising = false := by simpa using hbusy
    by_cases hwaiting : .waiting ∈ s.requests
    · cases hparts : s.document.parts with
      | none =>
          obtain ⟨s', hstep, hlt⟩ := exists_step_of_request hwaiting (.opens hparts hfree)
          exact ⟨_, s', hstep, trivial, hlt⟩
      | some parts =>
          obtain ⟨s', hstep, hlt⟩ := exists_step_of_request hwaiting (.finds hparts)
          exact ⟨_, s', hstep, trivial, hlt⟩
    · -- all requests have their answers, so the first inquiry has its answer too
      have hanswered : ∀ r ∈ s.requests, ∃ parts, r = .answered parts := by
        intro r hr
        cases r with
        | waiting => exact absurd hr hwaiting
        | reading => cases hfree _ hr
        | holding content => cases hfree _ hr
        | answered parts => exact ⟨parts, rfl⟩
      obtain ⟨q, more, hs⟩ := List.exists_cons_of_ne_nil h
      have hq : ∀ r ∈ q.requests, ∃ parts, r = .answered parts := by
        intro r hr
        apply hanswered
        rw [requests, hs, List.flatMap_cons]
        exact List.mem_append_left _ hr
      obtain ⟨e, hanswers, hprogress⟩ := Inquiry.exists_answers hq s.document
      obtain ⟨s', hstep, hlt⟩ := exists_step_of_answers hs hanswers
      exact ⟨e, s', hstep, hprogress, hlt⟩

theorem exists_run_to_answers (s : SharedDocument) :
    ∃ events t, s.Run events t ∧ (∀ e ∈ events, e.IsProgress) ∧ t.inquiries = [] := by
  induction hn : s.remaining using Nat.strongRecOn generalizing s with
  | ind n ih =>
      by_cases h : s.inquiries = []
      · exact ⟨[], s, .nil, by simp, h⟩
      · obtain ⟨e, s', hstep, hprogress, hlt⟩ := exists_progress h
        obtain ⟨events, t, hrun, hevents, hnone⟩ := ih s'.remaining (hn ▸ hlt) s' rfl
        exact ⟨e :: events, t, .cons hstep hrun, List.forall_mem_cons.2 ⟨hprogress, hevents⟩, hnone⟩

/-- Whatever callers do and whatever happens to the file, either nothing but the path of the file
has been told, or one read of the file is what all answers are about that have been given since it
came to its end, and before that nothing else was told. And callers never block one another: whoever
is still there can be answered. -/
theorem document_is_never_torn (h : (start file initial).Run events s) :
    ((∀ e ∈ events, e.IsEarly file) ∨
      ∃ earlier between after content told,
        events = earlier ++ .read content :: (between ++ .kept content :: after) ∧
        earlier.foldl DocumentEvent.contentAfter initial = content ∧
        (∀ e ∈ earlier ++ between, e.IsEarly file) ∧
        SnapshotDocument.Tells file content told ∧ ∀ e ∈ after, e.IsLate told) ∧
    ∃ more t, s.Run more t ∧ (∀ e ∈ more, e.IsProgress) ∧ t.inquiries = [] := by
  refine ⟨?_, s.exists_run_to_answers⟩
  cases h.sound with
  | unread hunread => exact .inl hunread.early
  | @loaded content before after hloaded =>
      obtain ⟨earlier, between, rfl, hcontent⟩ := hloaded.wasRead
      refine .inr ⟨earlier, between, after, content, s.document.unit, by simp, hcontent, ?_, ?_,
        hloaded.late⟩
      · intro e he
        apply hloaded.early
        rcases List.mem_append.1 he with he | he
        · exact List.mem_append_left _ he
        · exact List.mem_append_right _ (List.mem_cons_of_mem _ he)
      · rw [hloaded.document_eq]
        exact SnapshotDocument.tells_unit file content

/-- A caller gives up after reading a file that was not there. The next one reads the snapshot that
is there by then, while the path is asked for, and keeps it when the file has vanished again. -/
def abandonedReading (text : String) (told : ConfigurationUnit) : List DocumentEvent :=
  [.asked, .opened, .read (.error .notFound), .dropped, .changed (.ok text), .asked, .opened,
    .path "A.unit.json", .read (.ok text), .changed (.error .notFound), .kept (.ok text),
    .path told.path, .found, .unit told]

theorem run_abandonedReading {text : String} {snapshot : UnitSnapshot}
    (h : UnitSnapshot.parse text = .ok snapshot) :
    ∃ s, (start ⟨"A.unit.json"⟩ (.error .notFound)).Run (abandonedReading text snapshot.unit) s := by
  let d : SnapshotDocument := .ofFile ⟨"A.unit.json"⟩
  let p : DocumentParts := ⟨some snapshot.path, snapshot.tree, snapshot.unit.model⟩
  have hparts : (d.fill (.ok text)).parts = some p := by
    simp [d, p, SnapshotDocument.fill_ofFile, DocumentParts.ofContent, h]
  have hpath : (d.fill (.ok text)).path = snapshot.path := by
    simp [SnapshotDocument.path, hparts, p]
  have hask : ∀ content, Step ⟨content, d, []⟩ .asked ⟨content, d, [.unit .waiting .waiting]⟩ :=
    fun content => .ask (by simp [Inquiry.requests])
  have hfree : ∀ content, ∀ r ∈ requests ⟨content, d, [.unit .waiting .waiting]⟩,
      r.isInitialising = false := by
    simp [requests, Inquiry.requests, PartsRequest.isInitialising]
  have hopenTree : Step ⟨.error .notFound, d, [.unit .waiting .waiting]⟩ .opened
      ⟨.error .notFound, d, [.unit .reading .waiting]⟩ :=
    .request [] [] rfl (.unitTree _) (.opens rfl (hfree _))
  have hreadTree : Step ⟨.error .notFound, d, [.unit .reading .waiting]⟩ (.read (.error .notFound))
      ⟨.error .notFound, d, [.unit (.holding (.error .notFound)) .waiting]⟩ :=
    .request [] [] rfl (.unitTree _) .reads
  have hopenModel : Step ⟨.ok text, d, [.unit .waiting .waiting]⟩ .opened
      ⟨.ok text, d, [.unit .waiting .reading]⟩ :=
    .request [] [] rfl (.unitModel _) (.opens rfl (hfree _))
  have hreadModel : Step ⟨.ok text, d, [.unit .waiting .reading]⟩ (.read (.ok text))
      ⟨.ok text, d, [.unit .waiting (.holding (.ok text))]⟩ :=
    .request [] [] rfl (.unitModel _) .reads
  have hkeep : Step ⟨.error .notFound, d, [.unit .waiting (.holding (.ok text))]⟩
      (.kept (.ok text)) ⟨.error .notFound, d.fill (.ok text), [.unit .waiting (.answered p)]⟩ :=
    .request [] [] rfl (.unitModel _) (.keeps hparts)
  have hlook := Step.look
    (s := ⟨.error .notFound, d.fill (.ok text), [.unit .waiting (.answered p)]⟩)
  have hfind : Step ⟨.error .notFound, d.fill (.ok text), [.unit .waiting (.answered p)]⟩ .found
      ⟨.error .notFound, d.fill (.ok text), [.unit (.answered p) (.answered p)]⟩ :=
    .request [] [] rfl (.unitTree _) (.finds hparts)
  have hanswer : Step ⟨.error .notFound, d.fill (.ok text), [.unit (.answered p) (.answered p)]⟩
      (.unit ⟨(d.fill (.ok text)).path, p.tree, p.model⟩)
      ⟨.error .notFound, d.fill (.ok text), []⟩ :=
    .answer [] [] rfl (.unit p p)
  rw [hpath] at hanswer hlook
  have hgone := ((Run.nil.snoc (hask _)).snoc hopenTree).snoc hreadTree |>.snoc (.drop [] [] rfl)
  have hback := ((hgone.snoc (.change (.ok text))).snoc (hask _)).snoc hopenModel
  have hheld := ((hback.snoc .look).snoc hreadModel).snoc (.change (.error .notFound))
  exact ⟨_, (((hheld.snoc hkeep).snoc hlook).snoc hfind).snoc hanswer⟩

theorem abandoned_reading_leaves_no_trace :
    let events := abandonedReading UnitSnapshot.singleCall.render UnitSnapshot.singleCall.unit
    (∃ s, (start ⟨"A.unit.json"⟩ (.error .notFound)).Run events s) ∧
      ∃ earlier between after content,
        events = earlier ++ .read content :: (between ++ .kept content :: after) ∧
        ∀ e ∈ after, e.IsLate UnitSnapshot.singleCall.unit := by
  intro events
  have hparse : UnitSnapshot.parse UnitSnapshot.singleCall.render = .ok UnitSnapshot.singleCall :=
    UnitSnapshot.parse_of_writes (UnitSnapshot.writes_toJson _) (by decide)
  obtain ⟨s, hrun⟩ := run_abandonedReading hparse
  refine ⟨⟨s, hrun⟩, ?_⟩
  have hunit : .unit UnitSnapshot.singleCall.unit ∈ events := by simp [events, abandonedReading]
  rcases (document_is_never_torn hrun).1 with
    hearly | ⟨earlier, between, after, content, told, heq, -, hearly, -, hlate⟩
  · exact absurd (hearly _ hunit) id
  · refine ⟨earlier, between, after, content, heq, ?_⟩
    have hafter : .unit UnitSnapshot.singleCall.unit ∈ after := by
      -- nothing like it is told before the file has been read to the end
      have hnot : .unit UnitSnapshot.singleCall.unit ∉ earlier ++ between := fun h => hearly _ h
      have hsomewhere : .unit UnitSnapshot.singleCall.unit ∈
          earlier ++ .read content :: (between ++ .kept content :: after) := heq ▸ hunit
      simp only [List.mem_append, List.mem_cons, not_or, reduceCtorEq, false_or] at hsomewhere hnot
      exact (hsomewhere.resolve_left hnot.1).resolve_left hnot.2
    obtain rfl : UnitSnapshot.singleCall.unit = told := hlate _ hafter
    exact hlate

end SharedDocument

end SafeCalls
