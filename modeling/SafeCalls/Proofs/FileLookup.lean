import Mathlib.Data.List.Nodup
import SafeCalls.Files.Listing
import SafeCalls.Sorted.Map

namespace SafeCalls

/-!
# Looking up files

In a proper tree no directory has two entries of one name, and names are what paths can spell. There
the listing of a directory has exactly the regular files that names lead to, each of them once, and
the path of such a file below the directory leads to it.
-/

/-- A name that an entry of a directory may have. -/
def IsFileName (name : String) : Prop :=
  name ≠ "" ∧ name ≠ "." ∧ name ≠ ".." ∧ '/' ∉ name.toList

namespace FileNode

mutual

/-- Whether in every directory inside the entries have names of their own. -/
def IsProper : FileNode → Prop
  | file _ => True
  | link _ => True
  | directory entries => (entries.map Prod.fst).Nodup ∧ EntriesProper entries

def EntriesProper : List (String × FileNode) → Prop
  | [] => True
  | (name, node) :: more => (IsFileName name ∧ IsProper node) ∧ EntriesProper more

end

theorem isProper_directory {entries : List (String × FileNode)} :
    (directory entries).IsProper ↔
      (entries.map Prod.fst).Nodup ∧ ∀ e ∈ entries, IsFileName e.1 ∧ e.2.IsProper := by
  have hentries : ∀ es : List (String × FileNode),
      EntriesProper es ↔ ∀ e ∈ es, IsFileName e.1 ∧ e.2.IsProper := by
    intro es
    induction es with
    | nil => simp [EntriesProper]
    | cons e more ih => rw [EntriesProper, List.forall_mem_cons, ih]
  rw [IsProper, hentries]

theorem get?_append (root : FileNode) (before names : List String) :
    root.get? (before ++ names) = (root.get? before).bind (get? names) := by
  induction before generalizing root with
  | nil => rfl
  | cons name before ih =>
      cases root with
      | file _ => rfl
      | link _ => rfl
      | directory entries =>
          rw [List.cons_append, get?, get?]
          cases entries.lookup name with
          | none => rfl
          | some next => exact ih next

theorem get?_cons_eq_some {node next : FileNode} {name : String} {rest : List String}
    (h : node.get? (name :: rest) = some next) :
    ∃ entries inner, node = directory entries ∧ entries.lookup name = some inner ∧
      inner.get? rest = some next := by
  cases node with
  | file _ => simp [get?] at h
  | link _ => simp [get?] at h
  | directory entries =>
      rw [get?] at h
      obtain ⟨inner, hlookup, hinner⟩ := Option.bind_eq_some_iff.1 h
      exact ⟨entries, inner, rfl, hlookup, hinner⟩

theorem IsProper.get? {node next : FileNode} (hproper : node.IsProper) {names : List String}
    (h : node.get? names = some next) : next.IsProper ∧ ∀ name ∈ names, IsFileName name := by
  induction names generalizing node with
  | nil =>
      obtain rfl := Option.some.inj h
      exact ⟨hproper, by simp⟩
  | cons name rest ih =>
      obtain ⟨entries, inner, rfl, hlookup, hinner⟩ := get?_cons_eq_some h
      obtain ⟨hnodup, hentries⟩ := isProper_directory.1 hproper
      obtain ⟨hname, hpropers⟩ := hentries _ ((lookup_eq_some_iff_mem hnodup).1 hlookup)
      obtain ⟨hnext, hrest⟩ := ih hpropers hinner
      exact ⟨hnext, List.forall_mem_cons.2 ⟨hname, hrest⟩⟩

theorem files_directory (entries : List (String × FileNode)) :
    (directory entries).listing.files =
      entries.flatMap fun e => e.2.listing.files.map (e.1 :: ·) := by
  have hentries : ∀ es : List (String × FileNode), Listing.entryFiles (entryListings es) =
      es.flatMap fun e => e.2.listing.files.map (e.1 :: ·) := by
    intro es
    induction es with
    | nil => rfl
    | cons e more ih => rw [entryListings, Listing.entryFiles, ih, List.flatMap_cons]
  rw [listing, Listing.files, hentries]

theorem entries_directory (entries : List (String × FileNode)) :
    (directory entries).listing.entries = entries.map fun e => (e.1, e.2.listing) := by
  have hentries : ∀ es : List (String × FileNode),
      entryListings es = es.map fun e => (e.1, e.2.listing) := by
    intro es
    induction es with
    | nil => rfl
    | cons e more ih => rw [entryListings, ih, List.map_cons]
  rw [listing, Listing.entries, hentries]

theorem mem_files {node : FileNode} (hproper : node.IsProper) {names : List String} :
    names ∈ node.listing.files ↔ ∃ content, node.get? names = some (file content) := by
  induction names generalizing node with
  | nil =>
      cases node with
      | directory entries => simp [files_directory, FileNode.get?]
      | file content => simp [listing, Listing.files, FileNode.get?]
      | link target => simp [listing, Listing.files, FileNode.get?]
  | cons name rest ih =>
      cases node with
      | file content => simp [listing, Listing.files, FileNode.get?]
      | link target => simp [listing, Listing.files, FileNode.get?]
      | directory entries =>
          obtain ⟨hnodup, hentries⟩ := isProper_directory.1 hproper
          rw [files_directory, List.mem_flatMap]
          constructor
          · rintro ⟨e, he, hnames⟩
            obtain ⟨names, hfiles, heq⟩ := List.mem_map.1 hnames
            obtain ⟨rfl, rfl⟩ := List.cons.inj heq
            obtain ⟨content, hcontent⟩ := (ih (hentries e he).2).1 hfiles
            have hlookup := (lookup_eq_some_iff_mem hnodup).2 he
            exact ⟨content, by rw [FileNode.get?, hlookup]; exact hcontent⟩
          · rintro ⟨content, h⟩
            obtain ⟨_, inner, heq, hlookup, hinner⟩ := get?_cons_eq_some h
            obtain rfl := FileNode.directory.inj heq
            have he := (lookup_eq_some_iff_mem hnodup).1 hlookup
            exact ⟨_, he, List.mem_map_of_mem ((ih (hentries _ he).2).2 ⟨content, hinner⟩)⟩

mutual

theorem nodup_files : ∀ node : FileNode, node.IsProper → node.listing.files.Nodup
  | file _, _ => by simp [listing, Listing.files]
  | link _, _ => by simp [listing, Listing.files]
  | directory entries, hproper => by
      have hdistinct := List.pairwise_map.1 hproper.1
      rw [files_directory, List.nodup_flatMap]
      refine ⟨fun e he => ?_, hdistinct.imp fun hne => ?_⟩
      · exact (nodup_entryFiles entries hproper.2 e he).map (List.cons_injective)
      · refine List.disjoint_left.2 fun names hleft hright => ?_
        obtain ⟨_, -, rfl⟩ := List.mem_map.1 hleft
        obtain ⟨_, -, heq⟩ := List.mem_map.1 hright
        exact hne (List.cons.inj heq).1.symm

theorem nodup_entryFiles : ∀ entries : List (String × FileNode), EntriesProper entries →
    ∀ e ∈ entries, e.2.listing.files.Nodup
  | [], _ => by simp
  | (_, node) :: more, hproper => by
      rw [List.forall_mem_cons]
      exact ⟨nodup_files node hproper.1.2, nodup_entryFiles more hproper.2⟩

end

end FileNode

namespace FileTree

section

variable (t : FileTree) (follows : Bool) (links : Nat) (here : List String) {part : String}
  (rest : List String)

theorem locate_skip (hpart : part = "" ∨ part = ".") :
    t.locate follows links here (part :: rest) = t.locate follows links here rest := by
  rw [locate, if_pos hpart]

theorem locate_up : t.locate follows links here (".." :: rest) =
    t.locate follows links here.dropLast rest := by
  rw [locate, if_neg (by decide), if_pos rfl]

theorem locate_missing (hpart : ¬ (part = "" ∨ part = ".")) (hup : part ≠ "..")
    (hget : t.root.get? (here ++ [part]) = none) : t.locate follows links here (part :: rest) =
      if rest.isEmpty then .ok (here ++ [part]) else .error .notFound := by
  rw [locate, if_neg hpart, if_neg hup]
  simp [hget]

theorem locate_file (hpart : ¬ (part = "" ∨ part = ".")) (hup : part ≠ "..") {content : ByteArray}
    (hget : t.root.get? (here ++ [part]) = some (.file content)) :
    t.locate follows links here (part :: rest) =
      if rest.isEmpty then .ok (here ++ [part]) else .error .notDirectory := by
  rw [locate, if_neg hpart, if_neg hup]
  simp [hget]

theorem locate_directory (hpart : ¬ (part = "" ∨ part = ".")) (hup : part ≠ "..")
    {entries : List (String × FileNode)}
    (hget : t.root.get? (here ++ [part]) = some (.directory entries)) :
    t.locate follows links here (part :: rest) = t.locate follows links (here ++ [part]) rest := by
  rw [locate, if_neg hpart, if_neg hup]
  simp [hget]

theorem locate_link (hpart : ¬ (part = "" ∨ part = ".")) (hup : part ≠ "..") {target : FilePath}
    (hget : t.root.get? (here ++ [part]) = some (.link target)) :
    t.locate follows links here (part :: rest) =
      if rest.isEmpty && !follows then .ok (here ++ [part])
      else
        match links with
        | 0 => .error .tooManyLinks
        | links + 1 =>
            match pathError? target with
            | some e => .error e
            | none => t.locate follows links here (target.parts ++ rest) := by
  rw [locate, if_neg hpart, if_neg hup]
  cases links with
  | zero => simp [hget]
  | succ links => cases hpath : pathError? target <;> simp [hget, hpath]

end

/-- Whether parts that lead to a directory lead on from there; otherwise there is no way on. -/
def LeadsOn (t : FileTree) (links : Nat) (here parts : List String) : Prop :=
  ∃ reached : Except FileError (Nat × List String),
    (∀ more, more ≠ [] → t.locate true links here (parts ++ more) =
      reached.bind fun (links, there) => t.locate true links there more) ∧
    ∀ there entries, t.locate true links here parts = .ok there →
      t.root.get? there = some (.directory entries) → ∃ links, reached = .ok (links, there)

section

variable {t : FileTree} {links : Nat} {here : List String} {part : String} {e : FileError}

theorem leadsOn_of_end (hend : ∀ rest, t.locate true links here (part :: rest) =
      if rest.isEmpty then .ok (here ++ [part]) else .error e)
    (hget : ∀ entries, t.root.get? (here ++ [part]) ≠ some (.directory entries))
    (rest : List String) : t.LeadsOn links here (part :: rest) := by
  refine ⟨.error e, fun more hmore => ?_, fun there entries h hdirectory => ?_⟩
  · have hon : (rest ++ more).isEmpty = false := by simp [hmore]
    rw [List.cons_append, hend, hon]
    rfl
  · rw [hend] at h
    split at h
    · obtain rfl := Except.ok.inj h
      exact absurd hdirectory (hget entries)
    · cases h

theorem leadsOn_of_error (herror : ∀ rest, t.locate true links here (part :: rest) = .error e)
    (rest : List String) : t.LeadsOn links here (part :: rest) := by
  refine ⟨.error e, fun more _ => herror _, fun there entries h _ => ?_⟩
  rw [herror] at h
  cases h

end

theorem leadsOn (t : FileTree) (links : Nat) (here parts : List String) :
    t.LeadsOn links here parts := by
  -- The cases are those of `locate`: a missing part, a file or a link that cannot be followed ends
  -- every way, and any other part leads to a shorter way, or to one with fewer links to follow.
  induction links, here, parts using locate.induct t true with
  | case1 links here =>
      refine ⟨.ok (links, here), fun more _ => rfl, fun there entries h _ => ?_⟩
      rw [locate] at h
      exact ⟨links, by rw [Except.ok.inj h]⟩
  | case2 links here part rest hpart ih =>
      simpa [LeadsOn, locate_skip _ _ _ _ _ hpart] using ih
  | case3 links here rest _ ih => simpa [LeadsOn, locate_up] using ih
  | case4 links here part rest hpart hup there hget _
  | case5 links here part rest hpart hup there hget _ =>
      exact leadsOn_of_end (fun rest => locate_missing _ _ _ _ rest hpart hup hget)
        (fun _ h => by cases hget.symm.trans h) rest
  | case6 links here part rest hpart hup there content hget _
  | case7 links here part rest hpart hup there content hget _ =>
      exact leadsOn_of_end (fun rest => locate_file _ _ _ _ rest hpart hup hget)
        (fun _ h => by cases hget.symm.trans h) rest
  | case8 links here part rest hpart hup there entries hget ih =>
      simpa [LeadsOn, locate_directory _ _ _ _ _ hpart hup hget] using ih
  | case9 links here part rest hpart hup there target hget hrest => simp at hrest
  | case10 here part rest hpart hup there target hget _ =>
      exact leadsOn_of_error (e := .tooManyLinks)
        (fun rest => by simp [locate_link _ _ _ _ rest hpart hup hget]) rest
  | case11 here part rest hpart hup there target hget _ links e herror =>
      exact leadsOn_of_error (e := e)
        (fun rest => by simp [locate_link _ _ _ _ rest hpart hup hget, herror]) rest
  | case12 here part rest hpart hup there target hget _ links herror ih =>
      simpa [LeadsOn, locate_link _ _ _ _ _ hpart hup hget, herror] using ih

/-- Whether links are followed at the end makes a difference only where there is one. -/
theorem locate_false (t : FileTree) (links : Nat) (here parts : List String) :
    t.locate false links here parts = t.locate true links here parts ∨
      ∃ there target, t.locate false links here parts = .ok there ∧
        t.root.get? there = some (.link target) := by
  -- Only in the ninth case, a link at the end, the link is where the way ends.
  induction links, here, parts using locate.induct t false with
  | case1 links here => exact .inl (by rw [locate, locate])
  | case2 links here part rest hpart ih =>
      simpa [locate_skip _ _ _ _ _ hpart] using ih
  | case3 links here rest _ ih => simpa [locate_up] using ih
  | case4 links here part rest hpart hup there hget _
  | case5 links here part rest hpart hup there hget _ =>
      exact .inl (by simp only [locate_missing _ _ _ _ _ hpart hup hget])
  | case6 links here part rest hpart hup there content hget _
  | case7 links here part rest hpart hup there content hget _ =>
      exact .inl (by simp only [locate_file _ _ _ _ _ hpart hup hget])
  | case8 links here part rest hpart hup there entries hget ih =>
      simpa [locate_directory _ _ _ _ _ hpart hup hget] using ih
  | case9 links here part rest hpart hup there target hget hrest =>
      refine .inr ⟨there, target, ?_, hget⟩
      rw [locate_link _ _ _ _ _ hpart hup hget, if_pos hrest]
  | case10 here part rest hpart hup there target hget hrest =>
      refine .inl ?_
      rw [locate_link _ _ _ _ _ hpart hup hget, locate_link _ _ _ _ _ hpart hup hget,
        if_neg hrest, if_neg (by simp)]
  | case11 here part rest hpart hup there target hget hrest links e herror =>
      refine .inl ?_
      rw [locate_link _ _ _ _ _ hpart hup hget, locate_link _ _ _ _ _ hpart hup hget,
        if_neg hrest, if_neg (by simp)]
      simp only [herror]
  | case12 here part rest hpart hup there target hget hrest links herror ih =>
      rw [locate_link _ _ _ _ _ hpart hup hget, locate_link _ _ _ _ _ hpart hup hget,
        if_neg hrest, if_neg (by simp)]
      simpa only [herror] using ih

end FileTree

namespace FilePath

/-- Joining a name appends it to the parts, in place of an empty one at the end. -/
theorem parts_join (p : FilePath) {name : String} (hname : '/' ∉ name.toList) :
    ∃ before, (before = p.parts ∨ before ++ [""] = p.parts) ∧
      (p.join name).parts = before ++ [name] := by
  have hparts : ∀ cs : List Char, (Text.splitAt '/' (cs ++ '/' :: name.toList)).map String.ofList =
      (Text.splitAt '/' cs).map String.ofList ++ [name] := by
    intro cs
    rw [Text.splitAt_append, Text.splitAt_of_not_mem hname]
    simp
  by_cases hempty : p.text = ""
  · refine ⟨[], .inr ?_, ?_⟩
    · simp [parts, hempty, Text.splitAt]
    · simp [join, parts, hempty, Text.splitAt_of_not_mem hname]
  by_cases hslash : p.text.toList.getLast? = some '/'
  · obtain ⟨cs, hcs⟩ := List.getLast?_eq_some_iff.1 hslash
    refine ⟨(Text.splitAt '/' cs).map String.ofList, .inr ?_, ?_⟩
    · simp [parts, hcs, Text.splitAt_append, Text.splitAt]
    · rw [← hparts, parts, join, if_pos (by simp [hslash])]
      simp [hcs]
  · refine ⟨p.parts, .inl rfl, ?_⟩
    rw [parts, parts, join, if_neg (by simp [hempty, hslash]), ← hparts]
    simp

theorem parts_descend (p : FilePath) {names : List String} (hnil : names ≠ [])
    (hnames : ∀ name ∈ names, IsFileName name) :
    ∃ before, (before = p.parts ∨ before ++ [""] = p.parts) ∧
      (p.descend names).parts = before ++ names := by
  induction names generalizing p with
  | nil => exact absurd rfl hnil
  | cons name rest ih =>
      obtain ⟨⟨hne, -, -, hslash⟩, hrest⟩ := List.forall_mem_cons.1 hnames
      obtain ⟨before, hbefore, hjoin⟩ := p.parts_join hslash
      refine ⟨before, hbefore, ?_⟩
      rw [descend, List.foldl_cons]
      cases rest with
      | nil => exact hjoin
      | cons next rest =>
          obtain ⟨joined, hjoined, hdescend⟩ := ih (p.join name) (by simp) hrest
          have hwhole : joined = before ++ [name] := by
            rw [← hjoin]
            refine hjoined.resolve_right fun h => hne ?_
            rw [hjoin] at h
            exact ((List.append_inj' h rfl).2.symm |> List.singleton_inj.1)
          exact hdescend.trans (by rw [hwhole, List.append_assoc, List.singleton_append])

end FilePath

namespace FileTree

variable {t : FileTree}

theorem locate_descend (links : Nat) {here : List String} {node : FileNode} {names : List String}
    {content : ByteArray} (hhere : t.root.get? here = some node)
    (hnames : ∀ name ∈ names, IsFileName name) (hnil : names ≠ [])
    (hfile : node.get? names = some (.file content)) :
    t.locate true links here names = .ok (here ++ names) := by
  induction names generalizing here node with
  | nil => exact absurd rfl hnil
  | cons name rest ih =>
      obtain ⟨⟨hempty, hdot, hup, -⟩, hrest⟩ := List.forall_mem_cons.1 hnames
      have hpart : ¬ (name = "" ∨ name = ".") := by simp [hempty, hdot]
      obtain ⟨entries, inner, rfl, hlookup, hinner⟩ := FileNode.get?_cons_eq_some hfile
      have hthere : t.root.get? (here ++ [name]) = some inner := by
        rw [FileNode.get?_append, hhere]
        simp [FileNode.get?, hlookup]
      cases rest with
      | nil =>
          obtain rfl := Option.some.inj hinner
          rw [locate_file _ _ _ _ _ hpart hup hthere]
          rfl
      | cons next rest =>
          obtain ⟨entries, -, rfl, -, -⟩ := FileNode.get?_cons_eq_some hinner
          rw [locate_directory _ _ _ _ _ hpart hup hthere, ih hthere hrest (by simp) hinner,
            List.append_assoc, List.singleton_append]

theorem node_eq_ok {follows : Bool} {p : FilePath} {node : FileNode} :
    t.node follows p = .ok node ↔ pathError? p = none ∧ ∃ there,
      t.locate follows linkLimit [] p.parts = .ok there ∧ t.root.get? there = some node := by
  rw [FileTree.node, place]
  cases pathError? p with
  | some e => simp [bind, Except.bind]
  | none =>
      cases t.locate follows linkLimit [] p.parts with
      | error e => simp [bind, Except.bind]
      | ok there =>
          cases hget : t.root.get? there with
          | none => simp [bind, Except.bind, hget]
          | some found => simp [bind, Except.bind, hget]

theorem isProper_of_node {follows : Bool} {p : FilePath} {node : FileNode}
    (hproper : t.root.IsProper) (hnode : t.node follows p = .ok node) : node.IsProper := by
  obtain ⟨-, _, -, hget⟩ := node_eq_ok.1 hnode
  exact (hproper.get? hget).1

theorem exists_locate_below {directory : FilePath} {entries : List (String × FileNode)}
    (hnode : t.node true directory = .ok (.directory entries)) {before : List String}
    (hbefore : before = directory.parts ∨ before ++ [""] = directory.parts) :
    ∃ links there, t.root.get? there = some (.directory entries) ∧
      ∀ more, more ≠ [] → t.locate true linkLimit [] (before ++ more) =
        t.locate true links there more := by
  obtain ⟨-, there, hlocate, hget⟩ := node_eq_ok.1 hnode
  obtain ⟨reached, hon, hend⟩ := t.leadsOn linkLimit [] before
  suffices hreached : ∃ links, reached = .ok (links, there) by
    obtain ⟨links, rfl⟩ := hreached
    exact ⟨links, there, hget, hon⟩
  obtain rfl | hslash := hbefore
  · exact hend there entries hlocate hget
  · have hempty := hon [""] (by simp)
    rw [hslash, hlocate] at hempty
    cases reached with
    | error e => cases hempty
    | ok reached =>
        obtain ⟨links, found⟩ := reached
        replace hempty : .ok there = t.locate true links found [""] := hempty
        rw [locate_skip _ _ _ _ _ (.inl rfl), locate] at hempty
        exact ⟨links, by rw [Except.ok.inj hempty]⟩

/-- The text in the content of a file that a path leads to. -/
def readContent (p : FilePath) (content : ByteArray) : Except FileError String :=
  match pathError? p with
  | some e => .error e
  | none =>
      match String.fromUTF8? content with
      | some text => .ok text
      | none => .error .notText

theorem readContent_toUTF8 {p : FilePath} (hpath : pathError? p = none) (text : String) :
    readContent p text.toUTF8 = .ok text := by
  have htext : String.fromUTF8? text.toUTF8 = some text := by
    rw [String.toUTF8, String.fromUTF8?, dif_pos text.isValidUTF8]
    rfl
  rw [readContent, hpath, htext]

theorem read_descend {directory : FilePath} {entries : List (String × FileNode)}
    (hnode : t.node true directory = .ok (.directory entries)) {names : List String}
    {content : ByteArray} (hnames : ∀ name ∈ names, IsFileName name)
    (hfile : (FileNode.directory entries).get? names = some (.file content)) :
    t.read (directory.descend names) = readContent (directory.descend names) content := by
  cases hpath : pathError? (directory.descend names) with
  | some e => simp [read, readBytes, FileTree.node, place, readContent, hpath, bind, Except.bind]
  | none =>
      have hnil : names ≠ [] := by
        rintro rfl
        simp [FileNode.get?] at hfile
      obtain ⟨before, hbefore, hparts⟩ := directory.parts_descend hnil hnames
      obtain ⟨links, there, hthere, hbelow⟩ := exists_locate_below hnode hbefore
      have hlocate : t.locate true linkLimit [] (directory.descend names).parts =
          .ok (there ++ names) := by
        rw [hparts, hbelow names hnil, locate_descend links hthere hnames hnil hfile]
      have hget : t.root.get? (there ++ names) = some (.file content) := by
        rw [FileNode.get?_append, hthere]
        exact hfile
      have hfound := node_eq_ok.2 ⟨hpath, _, hlocate, hget⟩
      simp only [read, readBytes, hfound, readContent, hpath]
      rfl

theorem node_false {p : FilePath} {node : FileNode} (h : t.node false p = .ok node) :
    t.node true p = .ok node ∨ ∃ target, node = .link target := by
  obtain ⟨hpath, there, hlocate, hget⟩ := node_eq_ok.1 h
  obtain hsame | ⟨found, target, hfound, hlink⟩ := t.locate_false linkLimit [] p.parts
  · exact .inl (node_eq_ok.2 ⟨hpath, there, hsame ▸ hlocate, hget⟩)
  · obtain rfl := Except.ok.inj (hlocate.symm.trans hfound)
    exact .inr ⟨target, Option.some.inj (hget.symm.trans hlink)⟩

theorem list?_eq_some {directory : FilePath} {listing : Listing}
    (hlist : t.list? directory = some listing) (hdirectory : listing.isDirectory = true) :
    ∃ entries, t.node true directory = .ok (.directory entries) ∧
      listing = (FileNode.directory entries).listing := by
  rw [list?] at hlist
  split at hlist
  · next entries _ htrue => exact ⟨entries, htrue, (Option.some.inj hlist).symm⟩
  · next node hfalse _ =>
      obtain rfl := Option.some.inj hlist
      obtain htrue | ⟨target, rfl⟩ := node_false hfalse
      · cases node with
        | directory entries => exact ⟨entries, htrue, rfl⟩
        | file content => cases hdirectory
        | link target => cases hdirectory
      · cases hdirectory
  · cases hlist

theorem exists_list? {directory : FilePath} {entries : List (String × FileNode)}
    (hnode : t.node true directory = .ok (.directory entries)) :
    t.list? directory = some (FileNode.directory entries).listing := by
  obtain ⟨hpath, there, hlocate, hget⟩ := node_eq_ok.1 hnode
  obtain hsame | ⟨found, target, hfound, hlink⟩ := t.locate_false linkLimit [] directory.parts
  · have hfalse : t.node false directory = .ok (.directory entries) :=
      node_eq_ok.2 ⟨hpath, there, hsame.trans hlocate, hget⟩
    simp only [list?, hfalse]
  · have hfalse : t.node false directory = .ok (.link target) :=
      node_eq_ok.2 ⟨hpath, found, hfound, hlink⟩
    simp only [list?, hfalse, hnode]

end FileTree

end SafeCalls
