import SafeCalls.Proofs.FileLookup
import SafeCalls.Proofs.Outcome

namespace SafeCalls

/-!
# Reading what was written

A file that is written is read back as it was written. Setting one file changes neither a link nor
what is a directory, so that the way that led to the place of the file still leads there.
-/

/-! ### One entry of a tree is set -/

namespace FileNode

theorem lookup_setEntry_self (name : String) (new : FileNode) (entries : List (String × FileNode)) :
    (setEntry name (some new) entries).lookup name = some new := by
  induction entries with
  | nil => simp [setEntry]
  | cons e rest ih =>
      obtain ⟨other, old⟩ := e
      rw [setEntry]
      by_cases h : other = name
      · simp [h]
      · rw [if_neg h, List.lookup_cons, beq_eq_false_iff_ne.2 (Ne.symm h)]
        exact ih

theorem lookup_setEntry_of_ne {name other : String} (h : other ≠ name) (new : FileNode)
    (entries : List (String × FileNode)) :
    (setEntry name (some new) entries).lookup other = entries.lookup other := by
  induction entries with
  | nil => simp [setEntry, h]
  | cons e rest ih =>
      obtain ⟨first, old⟩ := e
      rw [setEntry]
      by_cases hfirst : first = name
      · subst hfirst
        simp [beq_eq_false_iff_ne.2 h, List.lookup_cons]
      · rw [if_neg hfirst, List.lookup_cons, List.lookup_cons, ih]

section

variable (new : FileNode) {name : String} {rest : List String}
  {entries : List (String × FileNode)}

theorem put_descend {inner : FileNode} (hrest : rest ≠ [])
    (hlookup : entries.lookup name = some inner) :
    (directory entries).put (some new) (name :: rest) =
      directory (setEntry name (some (inner.put (some new) rest)) entries) := by
  rw [put, hlookup]
  exact fun h => hrest h

theorem exists_put_cons (name : String) (rest : List String)
    (entries : List (String × FileNode)) :
    ∃ entries', (directory entries).put (some new) (name :: rest) = directory entries' ∧
      ∀ other, other ≠ name → entries'.lookup other = entries.lookup other := by
  by_cases hrest : rest = []
  · subst hrest
    exact ⟨_, rfl, fun other h => lookup_setEntry_of_ne h new entries⟩
  · cases hlookup : entries.lookup name with
    | none =>
        refine ⟨entries, ?_, fun _ _ => rfl⟩
        rw [put, hlookup]
        exact fun h => hrest h
    | some inner =>
        exact ⟨_, put_descend new hrest hlookup, fun other h => lookup_setEntry_of_ne h _ entries⟩

end

/-- The same node, or a directory in place of a directory. -/
inductive Keeps : FileNode → FileNode → Prop
  | same (node : FileNode) : Keeps node node
  | directory (entries entries' : List (String × FileNode)) :
      Keeps (directory entries) (directory entries')

/-- What is not below the place that is set stays what it is. -/
theorem exists_get?_put {there : List String} {root node : FileNode} {names : List String}
    (new : FileNode) (hget : root.get? names = some node) (hbelow : ¬ there <+: names) :
    ∃ node', (root.put (some new) there).get? names = some node' ∧ node.Keeps node' := by
  induction there generalizing root names with
  | nil => exact absurd List.nil_prefix hbelow
  | cons name rest ih =>
      cases names with
      | nil =>
          obtain rfl := Option.some.inj hget
          cases root with
          | file content => exact ⟨_, by simp [put, get?], .same _⟩
          | link target => exact ⟨_, by simp [put, get?], .same _⟩
          | directory entries =>
              obtain ⟨entries', hput, -⟩ := exists_put_cons new name rest entries
              exact ⟨directory entries', by rw [hput, get?], .directory _ _⟩
      | cons other more =>
          obtain ⟨entries, inner, rfl, hlookup, hinner⟩ := get?_cons_eq_some hget
          by_cases hother : other = name
          · subst hother
            have hbelow' : ¬ rest <+: more := fun h => hbelow (List.prefix_cons_inj _ |>.2 h)
            have hrest : rest ≠ [] := by
              rintro rfl
              exact hbelow' List.nil_prefix
            obtain ⟨node', hnode', hkeeps⟩ := ih hinner hbelow'
            refine ⟨node', ?_, hkeeps⟩
            rw [put_descend new hrest hlookup, get?, lookup_setEntry_self]
            exact hnode'
          · obtain ⟨entries', hput, hothers⟩ := exists_put_cons new name rest entries
            refine ⟨node, ?_, .same node⟩
            rw [hput, get?, hothers other hother, hlookup]
            exact hinner

theorem get?_put_self {before : List String} {root : FileNode}
    {entries : List (String × FileNode)} (new : FileNode) (name : String)
    (hget : root.get? before = some (directory entries)) :
    (root.put (some new) (before ++ [name])).get? (before ++ [name]) = some new := by
  induction before generalizing root with
  | nil =>
      obtain rfl := Option.some.inj hget
      rw [List.nil_append, put, get?, lookup_setEntry_self]
      rfl
  | cons first rest ih =>
      obtain ⟨entries, inner, rfl, hlookup, hinner⟩ := get?_cons_eq_some hget
      rw [List.cons_append, put_descend new (by simp) hlookup, get?, lookup_setEntry_self]
      exact ih hinner

theorem exists_directory_of_prefix {root node : FileNode} {names more : List String}
    (hget : root.get? (names ++ more) = some node) (hmore : more ≠ []) :
    ∃ entries, root.get? names = some (directory entries) := by
  rw [get?_append] at hget
  obtain ⟨next, hnext, hnode⟩ := Option.bind_eq_some_iff.1 hget
  cases more with
  | nil => exact absurd rfl hmore
  | cons name rest =>
      obtain ⟨entries, -, rfl, -⟩ := get?_cons_eq_some hnode
      exact ⟨entries, hnext⟩

end FileNode

namespace FileTree

variable {t t' : FileTree} {there : List String} {content : ByteArray}

/-- The ways that end somewhere, with all links on them followed, as many as that at most. -/
inductive Way (t : FileTree) : Nat → List String → List String → List String → Prop
  | nil {links : Nat} {here : List String} : Way t links here [] here
  | skip {links : Nat} {here rest found : List String} {part : String}
      (hpart : part = "" ∨ part = ".") (h : Way t links here rest found) :
      Way t links here (part :: rest) found
  | up {links : Nat} {here rest found : List String} (h : Way t links here.dropLast rest found) :
      Way t links here (".." :: rest) found
  | entry {links : Nat} {here : List String} {part : String} (hpart : ¬ (part = "" ∨ part = "."))
      (hup : part ≠ "..")
      (hget : ∀ node, t.root.get? (here ++ [part]) = some node → ∃ content, node = .file content) :
      Way t links here [part] (here ++ [part])
  | directory {links : Nat} {here rest found : List String} {part : String}
      {entries : List (String × FileNode)} (hpart : ¬ (part = "" ∨ part = ".")) (hup : part ≠ "..")
      (hget : t.root.get? (here ++ [part]) = some (.directory entries))
      (h : Way t links (here ++ [part]) rest found) : Way t links here (part :: rest) found
  | link {links : Nat} {here rest found : List String} {part : String} {target : FilePath}
      (hpart : ¬ (part = "" ∨ part = ".")) (hup : part ≠ "..")
      (hget : t.root.get? (here ++ [part]) = some (.link target))
      (htarget : pathError? target = none) (h : Way t links here (target.parts ++ rest) found) :
      Way t (links + 1) here (part :: rest) found

theorem way_of_locate (t : FileTree) (links : Nat) (here parts : List String)
    {found : List String} :
    t.locate true links here parts = .ok found → t.Way links here parts found := by
  -- After the parts that name nothing, the cases ask in turn whether the name leads to nothing,
  -- to a file, to a directory or to a link.
  induction links, here, parts using locate.induct t true with
  | case1 links here =>
      intro h
      rw [locate] at h
      obtain rfl := Except.ok.inj h
      exact .nil
  | case2 links here part rest hpart ih =>
      intro h
      rw [locate_skip _ _ _ _ _ hpart] at h
      exact .skip hpart (ih h)
  | case3 links here rest _ ih =>
      intro h
      rw [locate_up] at h
      exact .up (ih h)
  | case4 links here part rest hpart hup there hget hrest =>
      intro h
      rw [locate_missing _ _ _ _ rest hpart hup hget, if_pos hrest] at h
      obtain rfl := Except.ok.inj h
      obtain rfl := List.isEmpty_iff.1 hrest
      exact .entry hpart hup fun node hnode => by cases hget.symm.trans hnode
  | case5 links here part rest hpart hup there hget hrest =>
      intro h
      rw [locate_missing _ _ _ _ rest hpart hup hget, if_neg hrest] at h
      cases h
  | case6 links here part rest hpart hup there content hget hrest =>
      intro h
      rw [locate_file _ _ _ _ rest hpart hup hget, if_pos hrest] at h
      obtain rfl := Except.ok.inj h
      obtain rfl := List.isEmpty_iff.1 hrest
      exact .entry hpart hup fun node hnode => ⟨content, Option.some.inj (hnode.symm.trans hget)⟩
  | case7 links here part rest hpart hup there content hget hrest =>
      intro h
      rw [locate_file _ _ _ _ rest hpart hup hget, if_neg hrest] at h
      cases h
  | case8 links here part rest hpart hup there entries hget ih =>
      intro h
      rw [locate_directory _ _ _ _ _ hpart hup hget] at h
      exact .directory hpart hup hget (ih h)
  | case9 links here part rest hpart hup there target hget hrest => simp at hrest
  | case10 here part rest hpart hup there target hget _ =>
      intro h
      rw [locate_link _ _ _ _ rest hpart hup hget] at h
      simp at h
  | case11 here part rest hpart hup there target hget _ links e htarget =>
      intro h
      rw [locate_link _ _ _ _ rest hpart hup hget] at h
      simp [htarget] at h
  | case12 here part rest hpart hup there target hget _ links htarget ih =>
      intro h
      rw [locate_link _ _ _ _ rest hpart hup hget, if_neg (by simp)] at h
      simp only [htarget] at h
      exact .link hpart hup hget htarget (ih h)

section

variable {links : Nat} {here parts found : List String}

theorem Way.locate_eq (h : t.Way links here parts found) :
    t.locate true links here parts = .ok found := by
  induction h with
  | nil => rw [locate]
  | skip hpart h ih => rw [locate_skip _ _ _ _ _ hpart, ih]
  | up h ih => rw [locate_up, ih]
  | @entry links here part hpart hup hget =>
      cases hnode : t.root.get? (here ++ [part]) with
      | none => exact locate_missing _ _ _ _ [] hpart hup hnode
      | some node =>
          obtain ⟨content, rfl⟩ := hget node hnode
          exact locate_file _ _ _ _ [] hpart hup hnode
  | directory hpart hup hget h ih => rw [locate_directory _ _ _ _ _ hpart hup hget, ih]
  | link hpart hup hget htarget h ih =>
      rw [locate_link _ _ _ _ _ hpart hup hget, if_neg (by simp)]
      simp only [htarget, ih]

/-- A way from a directory ends at a directory or at an entry of one that is no link. -/
theorem Way.ends (h : t.Way links here parts found) {entries : List (String × FileNode)}
    (hhere : t.root.get? here = some (.directory entries)) :
    (∃ entries, t.root.get? found = some (.directory entries)) ∨
      ∃ before name entries, found = before ++ [name] ∧
        t.root.get? before = some (.directory entries) ∧
        ∀ target, t.root.get? found ≠ some (.link target) := by
  induction h generalizing entries with
  | nil => exact .inl ⟨entries, hhere⟩
  | skip hpart h ih => exact ih hhere
  | @up links here rest found h ih =>
      by_cases hnil : here = []
      · subst hnil
        exact ih hhere
      · rw [← List.dropLast_append_getLast hnil] at hhere
        obtain ⟨entries, habove⟩ := FileNode.exists_directory_of_prefix hhere (by simp)
        exact ih habove
  | @entry links here part hpart hup hget =>
      refine .inr ⟨here, part, entries, rfl, hhere, ?_⟩
      intro target hlink
      obtain ⟨content, hfile⟩ := hget _ hlink
      cases hfile
  | directory hpart hup hget h ih => exact ih hget
  | link hpart hup hget htarget h ih => exact ih hhere

end

/-- In the second tree a file is set at a place where the first one has at most a file. -/
structure SetsFile (t t' : FileTree) (there : List String) (content : ByteArray) : Prop where
  not_directory : ∀ entries, t.root.get? there ≠ some (.directory entries)
  not_link : ∀ target, t.root.get? there ≠ some (.link target)
  isSet : t'.root.get? there = some (.file content)
  keeps : ∀ names node, t.root.get? names = some node → ¬ there <+: names →
    ∃ node', t'.root.get? names = some node' ∧ node.Keeps node'

theorem SetsFile.exists_kept (h : SetsFile t t' there content) {names : List String}
    {node : FileNode} (hget : t.root.get? names = some node) (hfile : ∀ old, node ≠ .file old) :
    ∃ node', t'.root.get? names = some node' ∧ node.Keeps node' := by
  apply h.keeps names node hget
  rintro ⟨more, rfl⟩
  by_cases hmore : more = []
  · subst hmore
    rw [List.append_nil] at hget
    cases node with
    | file old => exact hfile old rfl
    | directory entries => exact h.not_directory entries hget
    | link target => exact h.not_link target hget
  · obtain ⟨entries, hdirectory⟩ := FileNode.exists_directory_of_prefix hget hmore
    exact h.not_directory entries hdirectory

theorem SetsFile.way {links : Nat} {here parts : List String} (hset : SetsFile t t' there content)
    (h : t.Way links here parts there) : t'.Way links here parts there := by
  induction h with
  | nil => exact .nil
  | skip hpart h ih => exact .skip hpart (ih hset)
  | up h ih => exact .up (ih hset)
  | entry hpart hup hget =>
      exact .entry hpart hup fun node hnode =>
        ⟨content, Option.some.inj (hnode.symm.trans hset.isSet)⟩
  | directory hpart hup hget h ih =>
      obtain ⟨node', hget', hkeeps⟩ := hset.exists_kept hget (by simp)
      obtain ⟨entries', rfl⟩ : ∃ entries', node' = .directory entries' := by
        cases hkeeps <;> exact ⟨_, rfl⟩
      exact .directory hpart hup hget' (ih hset)
  | link hpart hup hget htarget h ih =>
      obtain ⟨node', hget', hkeeps⟩ := hset.exists_kept hget (by simp)
      cases hkeeps
      exact .link hpart hup hget' htarget (ih hset)

/-! ### A file is saved -/

/-- Whether the tree is that of a directory. -/
def IsRooted (t : FileTree) : Prop := ∃ entries, t.root = .directory entries

theorem IsRooted.put (h : t.IsRooted) (new : FileNode) (before : List String) (name : String) :
    IsRooted ⟨t.root.put (some new) (before ++ [name])⟩ := by
  obtain ⟨entries, hroot⟩ := h
  cases before with
  | nil =>
      obtain ⟨entries', hput, -⟩ := FileNode.exists_put_cons new name [] entries
      exact ⟨entries', by rw [hroot, List.nil_append, hput]⟩
  | cons first rest =>
      obtain ⟨entries', hput, -⟩ := FileNode.exists_put_cons new first (rest ++ [name]) entries
      exact ⟨entries', by rw [hroot, List.cons_append, hput]⟩

theorem IsRooted.makeDirectory (h : t.IsRooted) {parts : List String}
    (hmake : t.makeDirectory parts = .ok t') : t'.IsRooted := by
  rw [FileTree.makeDirectory] at hmake
  obtain ⟨⟨here, name⟩, -, hput⟩ := bind_eq_ok.1 hmake
  dsimp only at hput
  split at hput
  · cases hput
  · obtain rfl := Except.ok.inj hput
    exact h.put _ here name

theorem IsRooted.makeDirectories (h : t.IsRooted) {names : List String}
    (hmake : t.makeDirectories names = .ok t') : t'.IsRooted := by
  induction names generalizing t t' with
  | nil =>
      obtain rfl := Except.ok.inj hmake
      exact h
  | cons name before ih =>
      rw [FileTree.makeDirectories] at hmake
      cases hfirst : t.makeDirectory (before.reverse ++ [name]) with
      | ok t₁ =>
          simp only [hfirst] at hmake
          obtain rfl := Except.ok.inj hmake
          exact h.makeDirectory hfirst
      | error e =>
          simp only [hfirst] at hmake
          by_cases hmissing : e.isMissing
          · rw [if_pos hmissing] at hmake
            obtain ⟨t₁, hbefore, hmake⟩ := bind_eq_ok.1 hmake
            have hrooted := ih h hbefore
            cases hagain : t₁.makeDirectory (before.reverse ++ [name]) with
            | ok t₂ =>
                simp only [hagain] at hmake
                obtain rfl := Except.ok.inj hmake
                exact hrooted.makeDirectory hagain
            | error e =>
                simp only [hagain] at hmake
                split at hmake
                · obtain rfl := Except.ok.inj hmake
                  exact hrooted
                · cases hmake
          · rw [if_neg hmissing] at hmake
            split at hmake
            · obtain rfl := Except.ok.inj hmake
              exact h
            · cases hmake

theorem writeBytes_eq_ok {p : FilePath} (h : t.writeBytes p content = .ok t') :
    pathError? p = none ∧ ∃ there, t.locate true linkLimit [] p.parts = .ok there ∧
      (∀ entries, t.root.get? there ≠ some (.directory entries)) ∧
      t' = ⟨t.root.put (some (.file content)) there⟩ := by
  rw [writeBytes] at h
  cases hpath : pathError? p with
  | some e => simp [hpath] at h
  | none =>
      simp only [hpath] at h
      obtain ⟨place, -, h⟩ := bind_eq_ok.1 h
      split at h
      · cases h
      · obtain ⟨there, hlocate, h⟩ := bind_eq_ok.1 h
        split at h
        · cases h
        · next hdirectory =>
            obtain rfl := Except.ok.inj h
            exact ⟨rfl, there, hlocate, fun entries hget => hdirectory entries hget, rfl⟩

theorem setsFile_of_writeBytes (hrooted : t.IsRooted) {p : FilePath}
    (h : t.writeBytes p content = .ok t') : pathError? p = none ∧
      ∃ there, t.Way linkLimit [] p.parts there ∧ SetsFile t t' there content := by
  obtain ⟨hpath, there, hlocate, hdirectory, rfl⟩ := writeBytes_eq_ok h
  obtain ⟨entries, hroot⟩ := hrooted
  have hhere : t.root.get? [] = some (.directory entries) := congrArg some hroot
  have hway := way_of_locate _ _ _ _ hlocate
  rcases hway.ends hhere with
    ⟨entries, hget⟩ | ⟨before, name, entries, rfl, hbefore, hlink⟩
  · exact absurd hget (hdirectory entries)
  · exact ⟨hpath, _, hway, hdirectory, hlink, FileNode.get?_put_self _ name hbefore,
      fun names node hget hbelow => FileNode.exists_get?_put _ hget hbelow⟩

theorem read_of_node {p : FilePath} {text : String} (h : t.node true p = .ok (.file text.toUTF8)) :
    t.read p = .ok text := by
  have hcontent := readContent_toUTF8 (node_eq_ok.1 h).1 text
  rw [readContent, (node_eq_ok.1 h).1] at hcontent
  rw [read, readBytes, h]
  exact hcontent

theorem read_save (hrooted : t.IsRooted) {p : FilePath} {text : String}
    (h : t.save p text = .ok t') : t'.read p = .ok text := by
  obtain ⟨made, hmade, hwrite⟩ : ∃ made, t.makeDirectories (p.names.reverse.drop 1) = .ok made ∧
      made.writeBytes p text.toUTF8 = .ok t' := by
    rw [save, saveBytes] at h
    cases hpath : pathError? p with
    | some e => simp [hpath] at h
    | none =>
        simp only [hpath] at h
        exact bind_eq_ok.1 h
  obtain ⟨hpath, there, hway, hset⟩ := setsFile_of_writeBytes (hrooted.makeDirectories hmade) hwrite
  apply read_of_node
  exact node_eq_ok.2 ⟨hpath, there, (hset.way hway).locate_eq, hset.isSet⟩

end FileTree

end SafeCalls
