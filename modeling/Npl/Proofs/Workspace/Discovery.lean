import Mathlib.Data.List.Forall2
import Npl.Proofs.Disk
import Npl.Proofs.Project.Placed
import Npl.Proofs.Text.Utf8

/-!
# What discovery finds

Going through a root finds the sources below it and nothing else: one for each file that directories
lead to from there, or link to a file, whose name ends like that of a source, unless a build
directory lies on the way, the system refuses its path or its bytes are no text. Build directories
above the root do not matter. The sources come in the order of their paths, component by component,
and those of one root behind those of the root before. What is passed over changes nothing about the
rest.

That is so for a source, and for a root that leads nowhere. A root that the system refuses to look up
or to list is not passed over: nothing is found then, below any root.

## Main definitions

* `Disk.Offers` — what the file holds that an entry is or leads to.
* `FoundBelow` — the source of a file below a root.
* `ListsSources` — a list of all these sources in order.
* `Refused` — a root that is not passed over.

## Main results

* `discover_exact` — what is found below several roots, and when something is.
-/

namespace Npl

open Text (unifyNewlines)

variable {disk : Disk} {root : Path}

/-! ### Sources below a root -/

/-- What the file holds that an entry is, or that a path leads to whose last name is a link. -/
inductive Disk.Offers (disk : Disk) (path : Path) (content : Content) : Node → Prop
  | file (hshort : Disk.exceeds path = false) : Offers disk path content (.file content)
  | link {target : String} (hleads : disk.file? path = .ok (some content)) :
      Offers disk path content (.link target)

/-- The source of a file below a root: directories lead to it from the root, none of them is a build
directory, its name ends like that of a source, and its bytes are a text. -/
inductive FoundBelow (disk : Disk) (root : Path) : Source → Prop
  | source {top : Location} {front : List String} {name : String} {node : Node} {content : Content}
      {cs : List Char} (hroot : disk.directory? root = .ok (some top))
      (hbelow : disk.Within top (front ++ [name]) node) (hbuild : buildDirectory ∉ front)
      (hname : sourceSuffix.toList <:+ name.toList)
      (hfile : disk.Offers (root.below (front ++ [name])) content node)
      (htext : content.read (root.below (front ++ [name])) = .ok (Text.Utf8.encode cs)) :
      FoundBelow disk root ⟨(root.below (front ++ [name])).toUri disk.workingPath,
        root.below (front ++ [name]), String.ofList (unifyNewlines cs), false⟩

/-- The list holds the source of each file below the root once, ordered by path components. -/
structure ListsSources (disk : Disk) (root : Path) (sources : List Source) : Prop where
  found : ∀ s, s ∈ sources ↔ FoundBelow disk root s
  ordered : sources.Pairwise fun s t => s.location.parts < t.location.parts

/-- The system refuses to look the root up, or to list a directory below it, as its path is too
long. -/
def Refused (disk : Disk) (root : Path) : Prop :=
  (∃ e, disk.directory? root = .error e) ∨ ∃ top names node,
    disk.directory? root = .ok (some top) ∧ disk.Within top names node ∧ node.isDirectory = true ∧
      Disk.exceeds (root.below names) = true

/-! ### One entry -/

/-- The bytes of a file are read as the text that they are written for. -/
theorem readText_eq_ok_iff {path : Path} {content : Content} {text : String} :
    readText path content = .ok text ↔
      ∃ cs, content.read path = .ok (Text.Utf8.encode cs) ∧ text = String.ofList (unifyNewlines cs) := by
  simp only [readText, bind_eq_ok_iff, mapError_eq_ok_iff, pure_eq_ok_iff, Text.Utf8.decode_eq_ok_iff]
  constructor
  · rintro ⟨bs, hbs, cs, rfl, rfl⟩
    exact ⟨cs, hbs, rfl⟩
  · rintro ⟨cs, hcs, rfl⟩
    exact ⟨_, hcs, cs, rfl, rfl⟩

theorem isBuildOutput_below {front : List String} {name : String} :
    (root.below (front ++ [name])).isBuildOutput root = true ↔ buildDirectory ∈ front := by
  simp [Path.isBuildOutput, Path.relativeTo?, Path.below]

/-- What is found at an entry. -/
theorem discoverEntry_eq_some_iff {front : List String} {name : String} {node : Node} {s : Source} :
    (discoverEntry disk root (front ++ [name], node)).1 = some s ↔ buildDirectory ∉ front ∧
      ∃ content cs, disk.file? (root.below (front ++ [name])) = .ok (some content) ∧
        content.read (root.below (front ++ [name])) = .ok (Text.Utf8.encode cs) ∧
        s = ⟨(root.below (front ++ [name])).toUri disk.workingPath, root.below (front ++ [name]),
          String.ofList (unifyNewlines cs), false⟩ := by
  simp only [discoverEntry]
  split
  · next hbuild => simp [isBuildOutput_below.1 hbuild]
  next hbuild =>
  rw [isBuildOutput_below] at hbuild
  split
  · next e herror => simp [herror]
  · next hnone => split <;> simp [hnone]
  next content hcontent =>
  split
  · next text htext =>
      obtain ⟨cs, hcs, rfl⟩ := readText_eq_ok_iff.1 htext
      constructor
      · intro h
        exact ⟨hbuild, content, cs, hcontent, hcs, (Option.some.inj h).symm⟩
      · rintro ⟨-, content', cs', hcontent', hcs', rfl⟩
        obtain rfl := Option.some.inj (Except.ok.inj (hcontent.symm.trans hcontent'))
        rw [readText_eq_ok_iff.2 ⟨cs', hcs', rfl⟩] at htext
        rw [Except.ok.inj htext]
  · next r hr =>
      constructor
      · simp
      · rintro ⟨-, content', cs, hcontent', hcs, -⟩
        obtain rfl := Option.some.inj (Except.ok.inj (hcontent.symm.trans hcontent'))
        simp [readText_eq_ok_iff.2 ⟨cs, hcs, rfl⟩] at hr

/-- Behind directories, looking up the path of an entry finds the file that it is or leads to. -/
theorem file?_below_iff (hd : disk.Sane) (ht : disk.Tree) {top : Location} {names : List String}
    {node : Node} (hroot : disk.directory? root = .ok (some top)) (h : disk.Within top names node)
    {content : Content} : disk.file? (root.below names) = .ok (some content) ↔
      disk.Offers (root.below names) content node := by
  have hfound := fun hnode => Disk.find?_below hd ht hroot h hnode
  cases node with
  | directory | closed =>
      rw [Disk.file?, hfound (by simp)]
      split
      · exact ⟨by simp [Except.map], nofun⟩
      · exact ⟨by simp [Except.map, Disk.contentOf], nofun⟩
  | file content' =>
      rw [Disk.file?, hfound (by simp)]
      split
      · next hlong =>
          refine ⟨by simp [Except.map], ?_⟩
          rintro ⟨hshort⟩
          simp [hlong] at hshort
      · next hshort =>
          constructor
          · intro heq
            obtain rfl := Option.some.inj (Except.ok.inj heq)
            exact .file (by simpa using hshort)
          · rintro ⟨⟩
            rfl
  | link target => exact ⟨.link, fun | .link hleads => hleads⟩

/-! ### Roots -/

/-- Below a directory that can be listed, what is found is what is found at the entries. -/
theorem discoverRoot_of_list {top : Location} {entries : List (List String × Node)}
    (hroot : disk.directory? root = .ok (some top)) (hlist : disk.list root top = .ok entries) :
    discoverRoot disk root = .ok
      (((sourceEntries entries).map (discoverEntry disk root)).filterMap Prod.fst,
        ((sourceEntries entries).map (discoverEntry disk root)).flatMap Prod.snd) := by
  rw [discoverRoot, hroot]
  change (disk.list root top >>= _) = _
  rw [hlist]
  rfl

/-- Listing the entries below a path is refused for a directory whose own path is too long. -/
theorem exists_list_eq_error_iff (ht : disk.Tree) {top : Location} :
    (∃ e, disk.list root top = .error e) ↔ ∃ names node, disk.Within top names node ∧
      node.isDirectory = true ∧ Disk.exceeds (root.below names) = true := by
  unfold Disk.list
  split
  · next names node hfind =>
      refine iff_of_true ⟨_, rfl⟩ ⟨names, node, ?_, ?_⟩
      · exact (Disk.mem_entriesBelow_iff ht).1 (List.mem_of_find?_eq_some hfind)
      · simpa [Disk.outgrows] using List.find?_some hfind
  · next hnone =>
      refine iff_of_false (by simp) ?_
      rintro ⟨names, node, hbelow, hdirectory, hlong⟩
      have hfits := List.find?_eq_none.1 hnone _ ((Disk.mem_entriesBelow_iff ht).2 hbelow)
      exact hfits (by simp [Disk.outgrows, hdirectory, hlong])

/-- Going through a root comes to no result if it is refused. -/
theorem exists_discoverRoot_eq_error_iff (ht : disk.Tree) :
    (∃ e, discoverRoot disk root = .error e) ↔ Refused disk root := by
  unfold discoverRoot Refused
  cases hroot : disk.directory? root with
  | error e => simp [bind_eq_error_iff]
  | ok top? =>
      cases top? with
      | none => simp [bind_eq_error_iff]
      | some top =>
          simp only [bind_eq_error_iff, Except.ok.injEq, reduceCtorEq, false_or, exists_eq_left',
            pure_ne_error, and_false, exists_false, or_false, exists_list_eq_error_iff ht,
            Option.some.injEq]
          simp

/-- Below one root exactly the sources of files are found. -/
theorem mem_discoverRoot_iff (hd : disk.Sane) (ht : disk.Tree)
    {found : List Source × List LogRecord} (h : discoverRoot disk root = .ok found) {s : Source} :
    s ∈ found.1 ↔ FoundBelow disk root s := by
  rcases discoverRoot_cases h with ⟨hnone, hempty⟩ | ⟨top, htop, -, hentries⟩
  · rw [hempty]
    refine ⟨by simp, fun | .source hroot _ _ _ _ _ => ?_⟩
    simp [hnone] at hroot
  rw [hentries, List.mem_filterMap]
  constructor
  · rintro ⟨⟨names, node⟩, hentry, hfound⟩
    obtain ⟨hmem, hname⟩ := List.mem_filter.1 hentry
    have hbelow := (Disk.mem_entriesBelow_iff ht).1 hmem
    obtain ⟨front, name, rfl⟩ := (List.eq_nil_or_concat' names).resolve_left hbelow.ne_nil
    obtain ⟨hbuild, content, cs, hcontent, htext, rfl⟩ := discoverEntry_eq_some_iff.1 hfound
    have hsuffix : sourceSuffix.toList <:+ name.toList := by simpa [isSourceName] using hname
    exact .source htop hbelow hbuild hsuffix ((file?_below_iff hd ht htop hbelow).1 hcontent) htext
  · intro hfound
    cases hfound with
    | @source top' front name node content cs hroot hbelow hbuild hname hfile htext =>
    obtain rfl := Option.some.inj (Except.ok.inj (htop.symm.trans hroot))
    refine ⟨(front ++ [name], node), ?_, ?_⟩
    · refine List.mem_filter.2 ⟨(Disk.mem_entriesBelow_iff ht).2 hbelow, ?_⟩
      simpa [isSourceName] using hname
    · have hcontent := (file?_below_iff hd ht htop hbelow).2 hfile
      exact discoverEntry_eq_some_iff.2 ⟨hbuild, content, cs, hcontent, htext, rfl⟩

/-- What is found below one root comes in the order of its paths. -/
theorem pairwise_discoverRoot (ht : disk.Tree) {found : List Source × List LogRecord}
    (h : discoverRoot disk root = .ok found) :
    found.1.Pairwise fun s t => s.location.parts < t.location.parts := by
  rcases discoverRoot_cases h with ⟨-, hempty⟩ | ⟨top, -, -, hentries⟩
  · rw [hempty]
    exact List.Pairwise.nil
  rw [hentries]
  refine List.Pairwise.filterMap _ ?_ ((Disk.pairwise_entriesBelow ht top).filter _)
  rintro ⟨names, node⟩ ⟨names', node'⟩ hlt s hs t hlater
  rw [(location_of_discoverEntry hs).2, (location_of_discoverEntry hlater).2]
  exact List.append_left_lt hlt

/-! ### Several roots -/

/-- Going through several roots comes to a result if it does for each of them. -/
theorem discover_eq_ok_iff {roots : List Path} {sources : List Source} :
    (discover disk roots).1 = .ok sources ↔ ∃ lists : List (List Source), sources = lists.flatten ∧
      List.Forall₂ (fun root list => ∃ records, discoverRoot disk root = .ok (list, records))
        roots lists := by
  rw [discover_fst]
  induction roots generalizing sources with
  | nil => simp [discoverFrom, eq_comm]
  | cons root roots ih =>
      rw [discoverFrom]
      cases hroot : discoverRoot disk root with
      | error e =>
          simp only [reduceCtorEq, false_iff]
          rintro ⟨lists, -, hlists⟩
          cases hlists with
          | cons hfirst _ => simp [hroot] at hfirst
      | ok found =>
          obtain ⟨first, records⟩ := found
          simp only
          rw [map_eq_ok_iff]
          constructor
          · rintro ⟨others, hothers, rfl⟩
            obtain ⟨lists, rfl, hlists⟩ := ih.1 hothers
            exact ⟨first :: lists, rfl, .cons ⟨records, hroot⟩ hlists⟩
          · rintro ⟨lists, rfl, hlists⟩
            cases hlists with
            | cons hfirst hothers =>
                obtain ⟨records', hfound⟩ := hfirst
                obtain ⟨rfl, -⟩ := Prod.mk.inj (Except.ok.inj (hroot.symm.trans hfound))
                exact ⟨_, ih.2 ⟨_, rfl, hothers⟩, rfl⟩

/-- A list can be matched member by member exactly if each member can be matched. -/
theorem exists_forall₂_iff {α β : Type} {r : α → β → Prop} {as : List α} :
    (∃ bs, List.Forall₂ r as bs) ↔ ∀ a ∈ as, ∃ b, r a b := by
  induction as with
  | nil => simp
  | cons a as ih =>
      rw [List.forall_mem_cons, ← ih]
      constructor
      · rintro ⟨bs, hbs⟩
        cases hbs with
        | cons hfirst hothers => exact ⟨⟨_, hfirst⟩, _, hothers⟩
      · rintro ⟨⟨b, hfirst⟩, bs, hothers⟩
        exact ⟨b :: bs, .cons hfirst hothers⟩

/-- Going through several roots comes to a result unless one of them is refused. -/
theorem exists_discover_eq_ok_iff (ht : disk.Tree) {roots : List Path} :
    (∃ sources, (discover disk roots).1 = .ok sources) ↔ ∀ root ∈ roots, ¬ Refused disk root := by
  have hone : ∀ root, ¬ Refused disk root ↔ ∃ list records, discoverRoot disk root = .ok (list, records) := by
    intro root
    rw [← exists_discoverRoot_eq_error_iff ht]
    cases discoverRoot disk root with
    | error e => simp
    | ok found => simp [Prod.exists' .. |>.symm]
  simp only [hone, ← exists_forall₂_iff, discover_eq_ok_iff]
  rw [exists_comm]
  simp

/-- Below several roots what is found are the sources of files below one of them. -/
theorem mem_discover_iff (hd : disk.Sane) (ht : disk.Tree) {roots : List Path} {sources : List Source}
    (h : (discover disk roots).1 = .ok sources) {s : Source} :
    s ∈ sources ↔ ∃ root ∈ roots, FoundBelow disk root s := by
  obtain ⟨lists, rfl, hlists⟩ := discover_eq_ok_iff.1 h
  rw [List.mem_flatten]
  constructor
  · rintro ⟨list, hlist, hs⟩
    obtain ⟨i, hi, rfl⟩ := List.mem_iff_getElem.1 hlist
    have hi' : i < roots.length := hlists.length_eq ▸ hi
    obtain ⟨records, hfound⟩ := hlists.get hi' hi
    exact ⟨roots[i], List.getElem_mem hi', (mem_discoverRoot_iff hd ht hfound).1 hs⟩
  · rintro ⟨root, hroot, hs⟩
    obtain ⟨i, hi, rfl⟩ := List.mem_iff_getElem.1 hroot
    have hi' : i < lists.length := hlists.length_eq ▸ hi
    obtain ⟨records, hfound⟩ := hlists.get hi hi'
    exact ⟨lists[i], List.getElem_mem hi', (mem_discoverRoot_iff hd ht hfound).2 hs⟩

/-- **Discovery finds exactly the sources.** It comes to a result exactly if no root is refused. Then
it finds, for one root after the other, the source of each file below the root, once, ordered by path
components. -/
theorem discover_exact (hd : disk.Sane) (ht : disk.Tree) (roots : List Path) :
    ((∃ sources, (discover disk roots).1 = .ok sources) ↔ ∀ root ∈ roots, ¬ Refused disk root) ∧
    ∀ sources, (discover disk roots).1 = .ok sources → ∃ lists : List (List Source),
      sources = lists.flatten ∧ List.Forall₂ (ListsSources disk) roots lists := by
  refine ⟨exists_discover_eq_ok_iff ht, fun sources h => ?_⟩
  obtain ⟨lists, rfl, hlists⟩ := discover_eq_ok_iff.1 h
  refine ⟨lists, rfl, hlists.imp ?_⟩
  rintro root list ⟨records, hfound⟩
  exact ⟨fun s => mem_discoverRoot_iff hd ht hfound, pairwise_discoverRoot ht hfound⟩

/-- A directory with files and directories of all kinds: a source in two directories of which one is
called like the other one with a suffix, bytes that are no text, a directory called like a source and
one that may not be entered, a file that may not be read and an archive whose bytes are a text, a link
to a source, one that leads nowhere and one that insists on a directory, and a build directory. -/
def clutteredDisk : Disk where
  workingDirectory := []
  entries := [
    (["ws"], .directory),
    (["ws", "a-b"], .directory),
    (["ws", "a-b", "c.npl"], .file (.bytes (Text.Utf8.encode "package c".toList))),
    (["ws", "a"], .directory),
    (["ws", "a", "c.npl"], .file (.bytes (Text.Utf8.encode "package c\r\nuse d.e\r".toList))),
    (["ws", "a", "raw.npl"], .file (.bytes [0xFF])),
    (["ws", "d.npl"], .directory),
    (["ws", "k.npl"], .file .locked),
    (["ws", "l.npl"], .link "a/c.npl"),
    (["ws", "m.npl"], .link "gone"),
    (["ws", "n.npl"], .link "a/c.npl/"),
    (["ws", "shut"], .closed),
    (["ws", "target"], .directory),
    (["ws", "target", "t.npl"], .file (.bytes [])),
    (["ws", "z.npl"], .file (.archive (Text.Utf8.encode "package z".toList) (.damaged "")))]

/-- The directory, a root that is missing, the build directory, and a directory inside the first. -/
def clutteredRoots : List Path :=
  [⟨.single, ["ws"]⟩, ⟨.single, ["gone"]⟩, ⟨.single, ["ws", "target"]⟩, ⟨.single, ["ws", "a-b"]⟩]

/-- A root that is missing and has a name that is too long. -/
def longRoot : Path :=
  ⟨.single, [String.ofList (List.replicate 256 'a')]⟩

theorem size_replicate (n : Nat) (c : Char) :
    (String.ofList (List.replicate n c)).utf8ByteSize = n * c.utf8Size := by
  rw [String.utf8ByteSize_ofList]
  induction n with
  | zero => simp
  | succ n ih => simp [List.replicate_succ, ih, Nat.succ_mul]

theorem refused_longRoot (disk : Disk) : Refused disk longRoot := by
  have hsize := size_replicate 256 'a'
  rw [show 'a'.utf8Size = 1 by decide] at hsize
  refine .inl ⟨.tooLong longRoot, disk.directory?_of_lt_size (fun hnull => ?_) ?_ ?_⟩
  · rw [String.toList_ofList] at hnull
    exact absurd (List.eq_of_mem_replicate hnull) (by decide)
  · rw [hsize]
    decide
  · rw [hsize]
    decide

/-- Below the first root four sources are found, with the links behind the two directories; below
the build directory its file is, as it is a root itself; and one source is found twice. With the root
of too long a name beside them, nothing is found. -/
theorem discover_exact_cluttered :
    clutteredDisk.Sane ∧ clutteredDisk.Tree ∧
    (∃ sources, (discover clutteredDisk clutteredRoots).1 = .ok sources ∧
      sources.map (fun s => (s.location.parts, s.content)) = [
        (["ws", "a", "c.npl"], "package c\nuse d.e\n"),
        (["ws", "a-b", "c.npl"], "package c"),
        (["ws", "l.npl"], "package c\nuse d.e\n"),
        (["ws", "z.npl"], "package z"),
        (["ws", "target", "t.npl"], ""),
        (["ws", "a-b", "c.npl"], "package c")] ∧
      ∃ lists : List (List Source), sources = lists.flatten ∧
        List.Forall₂ (ListsSources clutteredDisk) clutteredRoots lists) ∧
    ∀ sources, (discover clutteredDisk (longRoot :: clutteredRoots)).1 ≠ .ok sources := by
  have htargets : ∀ l target, (l, Node.link target) ∈ clutteredDisk.entries → NullFree target := by
    intro l target hmem
    obtain ⟨-, rfl⟩ | ⟨-, rfl⟩ | ⟨-, rfl⟩ : l = ["ws", "l.npl"] ∧ target = "a/c.npl" ∨
        l = ["ws", "m.npl"] ∧ target = "gone" ∨ l = ["ws", "n.npl"] ∧ target = "a/c.npl/" := by
      simpa [clutteredDisk] using hmem
    · decide
    · decide
    · decide
  have hd : clutteredDisk.Sane := ⟨by decide +kernel, htargets, by decide⟩
  have ht : clutteredDisk.Tree := ⟨by decide +kernel, by decide +kernel, by decide +kernel⟩
  have hentries : clutteredDisk.entriesBelow ["ws"] = [
      (["a"], .directory),
      (["a", "c.npl"], .file (.bytes (Text.Utf8.encode "package c\r\nuse d.e\r".toList))),
      (["a", "raw.npl"], .file (.bytes [0xFF])),
      (["a-b"], .directory),
      (["a-b", "c.npl"], .file (.bytes (Text.Utf8.encode "package c".toList))),
      (["d.npl"], .directory),
      (["k.npl"], .file .locked),
      (["l.npl"], .link "a/c.npl"),
      (["m.npl"], .link "gone"),
      (["n.npl"], .link "a/c.npl/"),
      (["shut"], .closed),
      (["target"], .directory),
      (["target", "t.npl"], .file (.bytes [])),
      (["z.npl"], .file (.archive (Text.Utf8.encode "package z".toList) (.damaged "")))] :=
    Disk.entriesBelow_eq ht (by decide +kernel) (by decide +kernel)
  have hroot : clutteredDisk.directory? ⟨.single, ["ws"]⟩ = .ok (some ["ws"]) := by decide +kernel
  have hlist : clutteredDisk.list ⟨.single, ["ws"]⟩ ["ws"] = .ok (clutteredDisk.entriesBelow ["ws"]) := by
    rw [Disk.list, hentries]
    decide +kernel
  have hfound : ((discover clutteredDisk clutteredRoots).1.map fun sources =>
      sources.map fun s => (s.location.parts, s.content)) = .ok [
        (["ws", "a", "c.npl"], "package c\nuse d.e\n"),
        (["ws", "a-b", "c.npl"], "package c"),
        (["ws", "l.npl"], "package c\nuse d.e\n"),
        (["ws", "z.npl"], "package z"),
        (["ws", "target", "t.npl"], ""),
        (["ws", "a-b", "c.npl"], "package c")] := by
    rw [discover_fst, clutteredRoots, discoverFrom, discoverRoot_of_list hroot hlist, hentries]
    decide +kernel
  refine ⟨hd, ht, ?_, fun sources h => ?_⟩
  · obtain ⟨sources, hsources, hshown⟩ := map_eq_ok_iff.1 hfound
    exact ⟨sources, hsources, hshown, (discover_exact hd ht clutteredRoots).2 sources hsources⟩
  · exact (discover_exact hd ht (longRoot :: clutteredRoots)).1.1 ⟨sources, h⟩ longRoot
      List.mem_cons_self (refused_longRoot clutteredDisk)

end Npl
