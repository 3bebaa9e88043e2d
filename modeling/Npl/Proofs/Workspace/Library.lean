import Mathlib.Data.List.Forall2
import Mathlib.Data.List.TakeWhile
import Npl.Proofs.Path.Host
import Npl.Proofs.Path.Uri
import Npl.Proofs.Workspace.Discovery
import Npl.Workspace.Library

/-!
# What libraries contribute

A reference stands for the members of a directory or of an archive, on the disk or in the workspace.
If each of them is a text, the reference contributes a source for each; in all other cases it
contributes nothing, and the other references contribute what they do alone. There are three
exceptions, which end loading without a result for any reference: the system refuses to look up or to
list something in the workspace, so that there is no snapshot of it; a reference starts like a file
URI and has an authority that no URI can have; or reading an archive breaks down for another reason
than that it is damaged.

## Main definitions

* `Library.Withheld` — a root of which there is no snapshot.
* `Library.Malformed` — a reference that starts like a file URI and is none.
* `Library.BreaksDown` — a reference to an archive whose reading breaks down.
* `Library.StandsFor` — the members that a reference stands for.
* `Library.Contributes` — the sources that a reference contributes.

## Main results

* `Library.exists_diskPath?_eq_error_iff` — what is refused are the malformed references.
* `Library.find_eq_some_iff` — what is found for a reference.
* `Library.load_eq_parts` — several references together.
* `Library.memberUri_toUri_eq_iff` — members of archives have URIs of their own.
-/

namespace Npl.Library

open Text (unifyNewlines)

/-! ### Malformed references -/

/-- No URI can have the authority: it has an opening or a closing square bracket without the other one,
something else than a host between them, or a character that normalizing turns into a delimiter. -/
def Improper (authority : List Char) : Prop :=
  ¬ ('[' ∈ authority ↔ ']' ∈ authority) ∨
    ('[' ∈ authority ∧ ¬ Host.IsHost (Host.bracketed authority)) ∨
    ∃ c ∈ authority, c ∈ Uri.delimiterLike

/-- The reference starts like a file URI, with an authority that no URI can have. Tabs and line ends do
not count. -/
def Malformed (reference : String) : Prop :=
  ∃ behind authority rest, reference.toList = "file:".toList ++ behind ∧
    behind.filter (fun c => c ≠ '\t' ∧ c ≠ '\r' ∧ c ≠ '\n') = '/' :: '/' :: (authority ++ rest) ∧
    (∀ c ∈ authority, Uri.endsAuthority c = false) ∧
    (∀ c ∈ rest.head?, Uri.endsAuthority c = true) ∧ Improper authority

/-- Behind the scheme of files comes what is left without tabs and line ends. -/
theorem splitScheme_clean_file (behind : List Char) :
    Uri.splitScheme (Uri.clean ("file:".toList ++ behind)) =
      ("file", behind.filter fun c => c ≠ '\t' ∧ c ≠ '\r' ∧ c ≠ '\n') := by
  have hdrop : ("file:".toList ++ behind).dropWhile (·.toNat ≤ 0x20) = "file:".toList ++ behind := rfl
  rw [Uri.clean, hdrop, List.filter_append]
  rfl

/-- An authority is the one that stands between two slashes and the first character that ends it. -/
theorem improper_splitAuthority_iff {cs : List Char} :
    Improper (Uri.splitAuthority cs).1 ↔ ∃ authority rest, cs = '/' :: '/' :: (authority ++ rest) ∧
      (∀ c ∈ authority, Uri.endsAuthority c = false) ∧
      (∀ c ∈ rest.head?, Uri.endsAuthority c = true) ∧ Improper authority := by
  constructor
  · intro h
    unfold Uri.splitAuthority at h
    split at h
    · next cs =>
        refine ⟨_, cs.dropWhile (!Uri.endsAuthority ·), by rw [List.takeWhile_append_dropWhile],
          fun c hc => ?_, fun c hc => ?_, h⟩
        · simpa using List.mem_takeWhile_imp hc
        · have hends := List.head?_dropWhile_not (!Uri.endsAuthority ·) cs
          rw [Option.mem_def] at hc
          simpa [hc] using hends
    · simp [Improper] at h
  · rintro ⟨authority, rest, rfl, hauthority, hrest, himproper⟩
    have htake : (authority ++ rest).takeWhile (!Uri.endsAuthority ·) = authority := by
      rw [List.takeWhile_append_of_pos fun c hc => by simp [hauthority c hc]]
      cases rest with
      | nil => simp
      | cons c rest =>
          have hc : Uri.endsAuthority c = true := hrest c rfl
          simp [hc]
    rw [Uri.splitAuthority, htake]
    exact himproper

/-- A text is refused as a URI for its authority. -/
theorem exists_parse_eq_error_iff {uri : String} : (∃ e, Uri.parse uri = .error e) ↔
    Improper (Uri.splitAuthority (Uri.splitScheme (Uri.clean uri.toList)).2).1 := by
  generalize hauthority : (Uri.splitAuthority (Uri.splitScheme (Uri.clean uri.toList)).2).1 = a
  have hbrackets : (∃ e, Uri.checkBrackets a = .error e) ↔
      ¬ ('[' ∈ a ↔ ']' ∈ a) ∨ '[' ∈ a ∧ ¬ Host.IsHost (Host.bracketed a) := by
    rw [← Host.check_eq_ok_iff]
    by_cases hopen : '[' ∈ a <;> by_cases hclose : ']' ∈ a
    · simp only [Uri.checkBrackets, List.contains_eq_mem, hopen, hclose, decide_true, ne_eq,
        not_true_eq_false, if_false, if_true, mapError_eq_error_iff]
      cases Host.check (Host.bracketed a) <;> simp
    · simp [Uri.checkBrackets, hopen, hclose]
    · simp [Uri.checkBrackets, hopen, hclose]
    · simp [Uri.checkBrackets, hopen, hclose]
  have hdelimiters : (∃ e, Uri.checkDelimiters a = .error e) ↔ ∃ c ∈ a, c ∈ Uri.delimiterLike := by
    by_cases hdelimiter : ∃ c ∈ a, c ∈ Uri.delimiterLike
    · simp [Uri.checkDelimiters, hdelimiter]
    · simp [Uri.checkDelimiters, hdelimiter]
  rw [Improper, ← or_assoc, ← hbrackets, ← hdelimiters]
  simp only [Uri.parse, hauthority, bind_eq_error_iff, pure_ne_error, and_false, exists_false, or_false,
    exists_or]
  refine or_congr_right' fun hopen => ?_
  cases hchecked : Uri.checkBrackets a with
  | error e => exact absurd ⟨e, hchecked⟩ hopen
  | ok checked => simp

/-- A file URI is refused for its authority only. -/
theorem exists_diskPath?_eq_error_iff {reference : String} :
    (∃ e, diskPath? reference = .error e) ↔ Malformed reference := by
  by_cases hfile : "file:".toList.isPrefixOf reference.toList
  · obtain ⟨behind, hbehind⟩ := List.isPrefixOf_iff_prefix.1 hfile
    have hsplit := splitScheme_clean_file behind
    rw [hbehind] at hsplit
    have hpath : (∃ e, diskPath? reference = .error e) ↔ ∃ e, Path.ofUri reference = .error e := by
      simp only [diskPath?, hfile, if_true, bind_pure_comp]
      exact exists_congr fun e => map_eq_error_iff
    have hparse : (∃ e, Path.ofUri reference = .error e) ↔ ∃ e, Uri.parse reference = .error e := by
      refine exists_congr fun e => ⟨fun h => ?_, fun h => bind_eq_error_iff.2 (.inl h)⟩
      refine (bind_eq_error_iff.1 h).resolve_right ?_
      rintro ⟨parsed, hparsed, herror⟩
      have hscheme : parsed.scheme = "file" := by rw [Uri.scheme_of_parse hparsed, hsplit]
      simp [hscheme, ← apply_ite pure] at herror
    rw [hpath, hparse, exists_parse_eq_error_iff, hsplit, improper_splitAuthority_iff]
    constructor
    · rintro ⟨authority, rest, hparts⟩
      exact ⟨behind, authority, rest, hbehind.symm, hparts⟩
    · rintro ⟨behind', authority, rest, hbehind', hparts⟩
      obtain rfl := List.append_cancel_left (hbehind.trans hbehind')
      exact ⟨authority, rest, hparts⟩
  · refine iff_of_false (fun ⟨e, h⟩ => ?_) fun ⟨behind, _, _, hbehind, _⟩ => hfile ?_
    · rw [diskPath?, if_neg hfile] at h
      exact pure_ne_error h
    · exact List.isPrefixOf_iff_prefix.2 ⟨behind, hbehind.symm⟩

/-- An opening square bracket alone is no authority, and between two brackets there is an address. -/
example : (diskPath? "file://[/lib").toOption = none ∧ (diskPath? "file://[x]/lib").toOption = none ∧
    (diskPath? "file://[::1]/lib").toOption.isSome := by
  decide +kernel

/-! ### Members -/

/-- A file of a library: the URI and the path of the source that it would be, the bytes that reading
it gives if it can be read, and whether its line ends are unified. -/
structure Member where
  uri : String
  location : Path
  bytes? : Option (List UInt8)
  loose : Bool

/-- The source of a member whose bytes are a text. -/
def Member.IsSource (m : Member) (s : Source) : Prop :=
  ∃ cs, m.bytes? = some (Text.Utf8.encode cs) ∧
    s = ⟨m.uri, m.location, String.ofList (if m.loose then unifyNewlines cs else cs), true⟩

/-- The member that the file at a path in a directory is. Without a file there is none, and if the
system refuses the path there is one that cannot be read. -/
def memberAt (disk : Disk) (path : Path) : Option Member :=
  match disk.file? path with
  | .ok none => none
  | .ok (some content) => some ⟨path.toUri disk.workingPath, path, (content.read path).toOption, true⟩
  | .error _ => some ⟨path.toUri disk.workingPath, path, none, true⟩

/-- The files below a directory whose names end like those of sources. -/
def membersOfDirectory (disk : Disk) (path : Path) (top : Location) : List Member :=
  (sourceEntries (disk.entriesBelow top)).filterMap fun (names, _) => memberAt disk (path.below names)

/-- The names of members that end like those of sources, in order. -/
def sourceNames (members : List ArchiveMember) : List String :=
  ((members.map ArchiveMember.name).filter isSourceName).mergeSort fun a b => !(b < a)

/-- The members of an archive at a path whose names end like those of sources, ordered by name. -/
def membersOfArchive (disk : Disk) (path : Path) (members : List ArchiveMember) : List Member :=
  (sourceNames members).map fun name =>
    ⟨memberUri (path.toUri disk.workingPath) name, path.join (.ofText name),
      (readMember members name).toOption, false⟩

/-- The entries of a snapshot below a directory whose names end like those of sources, ordered by
name. -/
def entriesIn (snapshot : Snapshot) (directory : String) : List SnapshotEntry :=
  (snapshot.filter fun e : SnapshotEntry => (directory ++ "/").toList.isPrefixOf e.name.toList &&
    isSourceName e.name).mergeSort fun a b => !(b.name < a.name)

/-- The sources below a directory of the workspace, with the paths that they came from. -/
def membersOfSnapshot (disk : Disk) (snapshot : Snapshot) (directory : String) : List Member :=
  (entriesIn snapshot directory).map fun e =>
    ⟨e.origin.toUri disk.workingPath, e.origin, (e.content.read e.origin).toOption, false⟩

/-- The file at a path that a reference names as an archive: one on the disk or one of the
workspace. -/
inductive NamesArchive (disk : Disk) (snapshot : Snapshot) (reference : String) :
    Path → Content → Prop
  | onDisk {path : Path} {content : Content} (hpath : diskPath? reference = .ok (some path))
      (hfile : disk.file? path = .ok (some content)) (hsuffix : path.suffix = archiveSuffix) :
      NamesArchive disk snapshot reference path content
  | inWorkspace {e : SnapshotEntry} (hpath : diskPath? reference = .ok none)
      (hentry : Snapshot.find? snapshot (workspaceName reference) = some e)
      (hsuffix : archiveSuffix.toList <:+ (workspaceName reference).toList) :
      NamesArchive disk snapshot reference e.origin e.content

/-- The members that a reference stands for: those of a directory on the disk that it names and that
can be listed, those of an archive, and otherwise those of a directory with sources in the
workspace. -/
inductive StandsFor (disk : Disk) (snapshot : Snapshot) (reference : String) : List Member → Prop
  | directory {path : Path} {top : Location} (hpath : diskPath? reference = .ok (some path))
      (htop : disk.directory? path = .ok (some top))
      (hlist : disk.list path top = .ok (disk.entriesBelow top)) :
      StandsFor disk snapshot reference (membersOfDirectory disk path top)
  | archive {path : Path} {bs : List UInt8} {members : List ArchiveMember}
      (hnames : NamesArchive disk snapshot reference path (.archive bs (.done members))) :
      StandsFor disk snapshot reference (membersOfArchive disk path members)
  | workspaceDirectory (hpath : diskPath? reference = .ok none)
      (hother : ∀ e, Snapshot.find? snapshot (workspaceName reference) = some e →
        ¬ archiveSuffix.toList <:+ (workspaceName reference).toList)
      (hne : membersOfSnapshot disk snapshot (workspaceName reference) ≠ []) :
      StandsFor disk snapshot reference (membersOfSnapshot disk snapshot (workspaceName reference))

/-- The sources that a reference contributes: one for each of the members that it stands for, and
nothing if it stands for none or one of them is no text. -/
def Contributes (disk : Disk) (snapshot : Snapshot) (reference : String) (part : List Source) : Prop :=
  (∃ ms, StandsFor disk snapshot reference ms ∧ List.Forall₂ Member.IsSource ms part) ∨
    part = [] ∧ ∀ ms part', StandsFor disk snapshot reference ms →
      ¬ List.Forall₂ Member.IsSource ms part'

/-- Reading an archive breaks down with a cause: opening it does, or reading a member does, and what
comes before that in order are texts. -/
inductive Breaks (cause : Cause) : Content → Prop
  | opening {bs : List UInt8} : Breaks cause (.archive bs (.unsupported cause))
  | member {bs : List UInt8} {members : List ArchiveMember} {before after : List String} {name : String}
      (hnames : sourceNames members = before ++ name :: after)
      (hbefore : ∀ n ∈ before, ∃ cs, readMember members n = .ok (Text.Utf8.encode cs))
      (hbreaks : readMember members name = .error (.unsupported cause)) :
      Breaks cause (.archive bs (.done members))

/-- The reference names an archive whose reading breaks down. -/
def BreaksDown (disk : Disk) (snapshot : Snapshot) (reference : String) : Prop :=
  ∃ path content cause, NamesArchive disk snapshot reference path content ∧ Breaks cause content

/-! ### Reading members -/

variable {disk : Disk} {snapshot : Snapshot} {part : List Source}

/-- The members are read one by one. -/
theorem mapM_eq_ok_iff_members {α : Type} {f : α → Except Flaw Source} {member : α → Member}
    (hread : ∀ a s, f a = .ok s ↔ (member a).IsSource s) {as : List α} :
    as.mapM f = .ok part ↔ List.Forall₂ Member.IsSource (as.map member) part := by
  rw [mapM_eq_ok_iff, ← List.forall₂_eq_eq_eq, List.forall₂_map_left_iff, List.forall₂_map_right_iff,
    List.forall₂_map_left_iff]
  simp only [hread]

/-- The members are read one by one, where not all there is to be read are members. -/
theorem mapM_eq_ok_iff_filterMap {α : Type} {f : α → Except Flaw (Option Source)}
    {member : α → Option Member}
    (hread : ∀ a found, f a = .ok found ↔ (member a = none ∧ found = none) ∨
      ∃ m s, member a = some m ∧ found = some s ∧ m.IsSource s) {as : List α} :
    (∃ found, as.mapM f = .ok found ∧ found.filterMap id = part) ↔
      List.Forall₂ Member.IsSource (as.filterMap member) part := by
  induction as generalizing part with
  | nil =>
      rw [List.filterMap_nil, List.forall₂_nil_left_iff]
      constructor
      · rintro ⟨found, hfound, rfl⟩
        obtain rfl := pure_eq_ok_iff.1 hfound
        rfl
      · rintro rfl
        exact ⟨[], rfl, rfl⟩
  | cons a as ih =>
      simp only [List.mapM_cons, bind_eq_ok_iff, pure_eq_ok_iff]
      cases ha : member a with
      | none =>
          rw [List.filterMap_cons_none ha, ← ih]
          constructor
          · rintro ⟨-, ⟨first, hfirst, others, hothers, rfl⟩, rfl⟩
            obtain ⟨-, rfl⟩ : member a = none ∧ first = none := by simpa [ha] using (hread a _).1 hfirst
            exact ⟨others, hothers, rfl⟩
          · rintro ⟨others, hothers, rfl⟩
            exact ⟨none :: others, ⟨none, (hread a _).2 (.inl ⟨ha, rfl⟩), others, hothers, rfl⟩, rfl⟩
      | some m =>
          rw [List.filterMap_cons_some ha]
          constructor
          · rintro ⟨-, ⟨first, hfirst, others, hothers, rfl⟩, rfl⟩
            obtain ⟨s, rfl, hs⟩ : ∃ s, first = some s ∧ m.IsSource s := by
              simpa [ha] using (hread a _).1 hfirst
            exact .cons hs (ih.1 ⟨others, hothers, rfl⟩)
          · intro h
            cases h with
            | @cons _ s _ rest hs hrest =>
                obtain ⟨others, hothers, rfl⟩ := ih.2 hrest
                have hfirst := (hread a (some s)).2 (.inr ⟨m, s, ha, rfl, hs⟩)
                exact ⟨some s :: others, ⟨_, hfirst, others, hothers, rfl⟩, rfl⟩

/-- A file of a directory is read with its line ends unified, if there is one. -/
theorem ofFile_eq_ok_iff {path : Path} {found : Option Source} : ofFile disk path = .ok found ↔
    (memberAt disk path = none ∧ found = none) ∨
      ∃ m s, memberAt disk path = some m ∧ found = some s ∧ m.IsSource s := by
  unfold ofFile memberAt
  rw [bind_eq_ok_iff]
  simp only [mapError_eq_ok_iff]
  cases disk.file? path with
  | error e => simp [Member.IsSource]
  | ok content? =>
      simp only [Except.ok.injEq, exists_eq_left']
      cases content? with
      | none => simp [@eq_comm _ found]
      | some content =>
          simp only [bind_eq_ok_iff, mapError_eq_ok_iff, readText_eq_ok_iff, pure_eq_ok_iff,
            Member.IsSource]
          constructor
          · rintro ⟨text, ⟨cs, hcs, rfl⟩, rfl⟩
            exact .inr ⟨_, _, rfl, rfl, cs, toOption_eq_some_iff.2 hcs, rfl⟩
          · rintro (⟨hnone, -⟩ | ⟨m, s, hm, rfl, cs, hcs, rfl⟩)
            · simp at hnone
            · obtain rfl := Option.some.inj hm
              exact ⟨_, ⟨cs, toOption_eq_some_iff.1 hcs, rfl⟩, rfl⟩

/-- A member of an archive is read with its line ends as they are. -/
theorem decodeText_isSource_iff {uri : String} {path : Path} {bs? : Except Flaw (List UInt8)}
    {s : Source} :
    (do let text ← decodeText (← bs?); return (⟨uri, path, text, true⟩ : Source)) = .ok s ↔
      (⟨uri, path, bs?.toOption, false⟩ : Member).IsSource s := by
  simp only [Member.IsSource, toOption_eq_some_iff, bind_eq_ok_iff, pure_eq_ok_iff, decodeText,
    map_eq_ok_iff, mapError_eq_ok_iff, Text.Utf8.decode_eq_ok_iff]
  constructor
  · rintro ⟨bs, hbs, text, ⟨cs, rfl, rfl⟩, rfl⟩
    exact ⟨cs, hbs, rfl⟩
  · rintro ⟨cs, hcs, rfl⟩
    exact ⟨_, hcs, _, ⟨cs, rfl, rfl⟩, rfl⟩

/-- What is read from a directory. -/
theorem ofDirectory_eq_ok_iff {path : Path} {top : Location} :
    ofDirectory disk path top = .ok part ↔ disk.list path top = .ok (disk.entriesBelow top) ∧
      List.Forall₂ Member.IsSource (membersOfDirectory disk path top) part := by
  rw [membersOfDirectory, ← mapM_eq_ok_iff_filterMap fun _ _ => ofFile_eq_ok_iff]
  simp only [ofDirectory, bind_eq_ok_iff, mapError_eq_ok_iff, pure_eq_ok_iff]
  constructor
  · rintro ⟨entries, hentries, found, hfound, rfl⟩
    obtain rfl := eq_entriesBelow_of_list hentries
    exact ⟨hentries, found, hfound, rfl⟩
  · rintro ⟨hentries, found, hfound, rfl⟩
    exact ⟨_, hentries, found, hfound, rfl⟩

/-- What is read from an archive. -/
theorem ofArchive_eq_ok_iff {path : Path} {content : Content} :
    ofArchive disk path content = .ok part ↔ ∃ bs members, content = .archive bs (.done members) ∧
      List.Forall₂ Member.IsSource (membersOfArchive disk path members) part := by
  have hread : ∀ members, ((sourceNames members).mapM fun name => do
      let text ← decodeText (← readMember members name)
      return (⟨memberUri (path.toUri disk.workingPath) name, path.join (.ofText name), text, true⟩ :
        Source)) = .ok part ↔ List.Forall₂ Member.IsSource (membersOfArchive disk path members) part :=
    fun members => mapM_eq_ok_iff_members fun _ _ => decodeText_isSource_iff
  unfold ofArchive
  rw [bind_eq_ok_iff]
  simp only [← hread]
  constructor
  · rintro ⟨members, hmembers, h⟩
    rcases content with bs | ⟨bs, members' | text | cause⟩ | -
    · simp [membersOf] at hmembers
    · obtain rfl := Except.ok.inj hmembers
      exact ⟨bs, members', rfl, h⟩
    · simp [membersOf, ofReading] at hmembers
    · simp [membersOf, ofReading] at hmembers
    · simp [membersOf] at hmembers
  · rintro ⟨bs, members, rfl, h⟩
    exact ⟨members, rfl, h⟩

/-- What is read from a directory of the workspace. -/
theorem ofSnapshot_eq_ok_iff {directory : String} :
    ofSnapshot disk snapshot directory = .ok (some part) ↔
      membersOfSnapshot disk snapshot directory ≠ [] ∧
        List.Forall₂ Member.IsSource (membersOfSnapshot disk snapshot directory) part := by
  have hunfold : ofSnapshot disk snapshot directory =
      if (entriesIn snapshot directory).isEmpty then .ok none
      else ((entriesIn snapshot directory).mapM fun e : SnapshotEntry => do
        let text ← decodeText (← (e.content.read e.origin).mapError Flaw.refused)
        return (⟨e.origin.toUri disk.workingPath, e.origin, text, true⟩ : Source)).map some := rfl
  have htoOption : ∀ e : SnapshotEntry, ((e.content.read e.origin).mapError Flaw.refused).toOption =
      (e.content.read e.origin).toOption := fun e => by
    cases e.content.read e.origin <;> rfl
  have hread : ((entriesIn snapshot directory).mapM fun e : SnapshotEntry => do
      let text ← decodeText (← (e.content.read e.origin).mapError Flaw.refused)
      return (⟨e.origin.toUri disk.workingPath, e.origin, text, true⟩ : Source)) = .ok part ↔
      List.Forall₂ Member.IsSource (membersOfSnapshot disk snapshot directory) part :=
    mapM_eq_ok_iff_members fun e _ => htoOption e ▸ decodeText_isSource_iff
  rw [hunfold, ← hread, membersOfSnapshot, ne_eq, List.map_eq_nil_iff, ← List.isEmpty_iff]
  split
  · next hempty => simp [hempty]
  · next hempty => simp [hempty, map_eq_ok_iff]

/-! ### What is found -/

/-- Where a file is found there is no directory. -/
theorem directory?_eq_none_of_file? {path : Path} {content : Content}
    (h : disk.file? path = .ok (some content)) : disk.directory? path = .ok none := by
  obtain ⟨found, hfound, hcontent⟩ := map_eq_ok_iff.1 h
  unfold Disk.contentOf at hcontent
  split at hcontent
  · exact map_eq_ok_iff.2 ⟨_, hfound, rfl⟩
  · simp at hcontent

/-- A path of the disk is looked up as that of a directory, and then as that of an archive. -/
theorem onDisk_eq_iff {path : Path} {found : Option (List Source)} :
    onDisk disk path = .ok found ↔
    (∃ top sources, disk.directory? path = .ok (some top) ∧ ofDirectory disk path top = .ok sources ∧
      found = some sources) ∨
    disk.directory? path = .ok none ∧ (disk.file? path = .ok none ∧ found = none ∨
      ∃ content, disk.file? path = .ok (some content) ∧
        (path.suffix = archiveSuffix ∧ (∃ sources, ofArchive disk path content = .ok sources ∧
            found = some sources) ∨
          path.suffix ≠ archiveSuffix ∧ found = none)) := by
  unfold onDisk
  rw [bind_eq_ok_iff]
  simp only [mapError_eq_ok_iff]
  cases disk.directory? path with
  | error e => simp
  | ok top? =>
      simp only [Except.ok.injEq, exists_eq_left']
      cases top? with
      | some top =>
          simp only [bind_eq_ok_iff, pure_eq_ok_iff, Option.some.injEq, exists_eq_left', reduceCtorEq,
            false_and, or_false, exists_and_left, @eq_comm _ found]
      | none =>
          simp only [bind_eq_ok_iff, mapError_eq_ok_iff, reduceCtorEq, false_and, exists_false,
            false_or, true_and]
          cases disk.file? path with
          | error e => simp
          | ok content? =>
              simp only [Except.ok.injEq, exists_eq_left']
              cases content? with
              | none => simp [@eq_comm _ found]
              | some content =>
                  by_cases hsuffix : path.suffix = archiveSuffix
                  · simp only [hsuffix, if_true, bind_eq_ok_iff, pure_eq_ok_iff]
                    simp [@eq_comm _ found]
                  · simp [hsuffix, @eq_comm _ found]

/-- What is found at a path of the disk. -/
theorem onDisk_eq_some_iff {path : Path} : onDisk disk path = .ok (some part) ↔
    (∃ top, disk.directory? path = .ok (some top) ∧
      disk.list path top = .ok (disk.entriesBelow top) ∧
      List.Forall₂ Member.IsSource (membersOfDirectory disk path top) part) ∨
    ∃ bs members, disk.file? path = .ok (some (.archive bs (.done members))) ∧
      path.suffix = archiveSuffix ∧
      List.Forall₂ Member.IsSource (membersOfArchive disk path members) part := by
  rw [onDisk_eq_iff]
  simp only [ofDirectory_eq_ok_iff, ofArchive_eq_ok_iff, Option.some.injEq, reduceCtorEq, and_false,
    false_or, or_false]
  constructor
  · rintro (⟨top, sources, htop, hsources, rfl⟩ |
      ⟨-, content, hfile, hsuffix, sources, ⟨bs, members, rfl, hmembers⟩, rfl⟩)
    · exact .inl ⟨top, htop, hsources⟩
    · exact .inr ⟨bs, members, hfile, hsuffix, hmembers⟩
  · rintro (⟨top, htop, hsources⟩ | ⟨bs, members, hfile, hsuffix, hmembers⟩)
    · exact .inl ⟨top, part, htop, hsources, rfl⟩
    · exact .inr ⟨directory?_eq_none_of_file? hfile, _, hfile, hsuffix, part,
        ⟨bs, members, rfl, hmembers⟩, rfl⟩

/-- A name of the workspace is looked up as that of an archive, and otherwise as that of a
directory. -/
theorem inWorkspace_eq {name : String} :
    (∃ e, Snapshot.find? snapshot name = some e ∧ archiveSuffix.toList <:+ name.toList ∧
      inWorkspace disk snapshot name = (ofArchive disk e.origin e.content).map some) ∨
    (∀ e, Snapshot.find? snapshot name = some e → ¬ archiveSuffix.toList <:+ name.toList) ∧
      inWorkspace disk snapshot name = ofSnapshot disk snapshot name := by
  unfold inWorkspace
  split
  · next e hentry =>
      split
      · next hsuffix => exact .inl ⟨e, hentry, List.isSuffixOf_iff_suffix.1 hsuffix, rfl⟩
      · next hsuffix => exact .inr ⟨fun _ _ hends => hsuffix (List.isSuffixOf_iff_suffix.2 hends), rfl⟩
  · next hentry => exact .inr ⟨fun e he => by simp [hentry] at he, rfl⟩

/-- What is found under a name of the workspace. -/
theorem inWorkspace_eq_some_iff {name : String} : inWorkspace disk snapshot name = .ok (some part) ↔
    (∃ e bs members, Snapshot.find? snapshot name = some e ∧ e.content = .archive bs (.done members) ∧
      archiveSuffix.toList <:+ name.toList ∧
      List.Forall₂ Member.IsSource (membersOfArchive disk e.origin members) part) ∨
    (∀ e, Snapshot.find? snapshot name = some e → ¬ archiveSuffix.toList <:+ name.toList) ∧
      membersOfSnapshot disk snapshot name ≠ [] ∧
      List.Forall₂ Member.IsSource (membersOfSnapshot disk snapshot name) part := by
  rcases @inWorkspace_eq disk snapshot name with ⟨e, hentry, hsuffix, heq⟩ | ⟨hother, heq⟩
  · rw [heq, map_eq_ok_iff]
    simp only [ofArchive_eq_ok_iff, Option.some.injEq, exists_eq_right]
    constructor
    · rintro ⟨bs, members, hcontent, hmembers⟩
      exact .inl ⟨e, bs, members, hentry, hcontent, hsuffix, hmembers⟩
    · rintro (⟨e', bs, members, hentry', hcontent, -, hmembers⟩ | ⟨hother, -⟩)
      · obtain rfl := Option.some.inj (hentry.symm.trans hentry')
        exact ⟨bs, members, hcontent, hmembers⟩
      · exact absurd hsuffix (hother e hentry)
  · rw [heq, ofSnapshot_eq_ok_iff]
    constructor
    · exact fun h => .inr ⟨hother, h⟩
    · rintro (⟨e, -, -, hentry, -, hsuffix, -⟩ | ⟨-, h⟩)
      · exact absurd hsuffix (hother e hentry)
      · exact h

/-- **What a reference stands for is what is found for it**, if all of it can be read. -/
theorem find_eq_some_iff {reference : String} : find disk snapshot reference = .ok (.ok (some part)) ↔
      ∃ ms, StandsFor disk snapshot reference ms ∧ List.Forall₂ Member.IsSource ms part := by
  constructor
  · intro h
    obtain ⟨path?, hpath, h⟩ := bind_eq_ok_iff.1 h
    cases path? with
    | some path =>
        rcases onDisk_eq_some_iff.1 (pure_eq_ok_iff.1 h) with
          ⟨top, htop, hlist, hmembers⟩ | ⟨bs, members, hfile, hsuffix, hmembers⟩
        · exact ⟨_, .directory hpath htop hlist, hmembers⟩
        · exact ⟨_, .archive (.onDisk hpath hfile hsuffix), hmembers⟩
    | none =>
        rcases inWorkspace_eq_some_iff.1 (pure_eq_ok_iff.1 h) with
          ⟨e, bs, members, hentry, hcontent, hsuffix, hmembers⟩ | ⟨hother, hne, hmembers⟩
        · have hnames : NamesArchive disk snapshot reference e.origin e.content :=
            .inWorkspace hpath hentry hsuffix
          exact ⟨_, .archive (hcontent ▸ hnames), hmembers⟩
        · exact ⟨_, .workspaceDirectory hpath hother hne, hmembers⟩
  · rintro ⟨ms, hstands, hmembers⟩
    cases hstands with
    | directory hpath htop hlist =>
        have hread := onDisk_eq_some_iff.2 (.inl ⟨_, htop, hlist, hmembers⟩)
        exact bind_eq_ok_iff.2 ⟨_, hpath, pure_eq_ok_iff.2 hread⟩
    | @archive path bs members hnames =>
        generalize hcontent : Content.archive bs (.done members) = content at hnames
        cases hnames with
        | onDisk hpath hfile hsuffix =>
            have hread := onDisk_eq_some_iff.2 (.inr ⟨bs, members, hcontent ▸ hfile, hsuffix, hmembers⟩)
            exact bind_eq_ok_iff.2 ⟨_, hpath, pure_eq_ok_iff.2 hread⟩
        | inWorkspace hpath hentry hsuffix =>
            have hread := inWorkspace_eq_some_iff.2
              (.inl ⟨_, bs, members, hentry, hcontent.symm, hsuffix, hmembers⟩)
            exact bind_eq_ok_iff.2 ⟨_, hpath, pure_eq_ok_iff.2 hread⟩
    | workspaceDirectory hpath hother hne =>
        have hread := inWorkspace_eq_some_iff.2 (.inr ⟨hother, hne, hmembers⟩)
        exact bind_eq_ok_iff.2 ⟨_, hpath, pure_eq_ok_iff.2 hread⟩

/-! ### Breaking down -/

variable {cause : Cause}

/-- A text that is none does not break loading down. -/
theorem decodeText_ne_unsupported {bs : List UInt8} : decodeText bs ≠ .error (.unsupported cause) := by
  intro h
  obtain ⟨e, -, he⟩ := mapError_eq_error_iff.1 (map_eq_error_iff.1 h)
  simp at he

/-- Reading an archive breaks down. -/
theorem ofArchive_eq_error_iff {path : Path} {content : Content} :
    ofArchive disk path content = .error (.unsupported cause) ↔ Breaks cause content := by
  have hfails : ∀ (members : List ArchiveMember) (name uri : String) (p : Path),
      (do let text ← decodeText (← readMember members name)
          return (⟨uri, p, text, true⟩ : Source)) = .error (.unsupported cause) ↔
        readMember members name = .error (.unsupported cause) := by
    intro members name uri p
    simp only [bind_eq_error_iff, pure_ne_error, and_false, exists_false, or_false,
      decodeText_ne_unsupported]
  have hreads : ∀ (members : List ArchiveMember) (name uri : String) (p : Path),
      (∃ s, (do let text ← decodeText (← readMember members name)
                return (⟨uri, p, text, true⟩ : Source)) = .ok s) ↔
        ∃ cs, readMember members name = .ok (Text.Utf8.encode cs) := by
    intro members name uri p
    simp only [decodeText_isSource_iff, Member.IsSource, toOption_eq_some_iff]
    constructor
    · rintro ⟨s, cs, hcs, -⟩
      exact ⟨cs, hcs⟩
    · rintro ⟨cs, hcs⟩
      exact ⟨_, cs, hcs, rfl⟩
  have hmembers : ∀ members : List ArchiveMember, ((sourceNames members).mapM fun name => do
      let text ← decodeText (← readMember members name)
      return (⟨memberUri (path.toUri disk.workingPath) name, path.join (.ofText name), text, true⟩ :
        Source)) = .error (.unsupported cause) ↔ ∃ before name after,
          sourceNames members = before ++ name :: after ∧
          (∀ n ∈ before, ∃ cs, readMember members n = .ok (Text.Utf8.encode cs)) ∧
          readMember members name = .error (.unsupported cause) := by
    intro members
    rw [mapM_eq_error_iff]
    simp only [hfails, hreads]
  unfold ofArchive
  rw [bind_eq_error_iff]
  constructor
  · rintro (h | ⟨members, hopened, h⟩)
    · rcases content with bs | ⟨bs, members | text | cause'⟩ | -
      · simp [membersOf] at h
      · simp [membersOf, ofReading] at h
      · simp [membersOf, ofReading] at h
      · obtain rfl : cause' = cause := by simpa [membersOf, ofReading] using h
        exact .opening
      · simp [membersOf, Flaw.refused] at h
    · obtain ⟨before, name, after, hnames, hbefore, hbreaks⟩ := (hmembers members).1 h
      rcases content with bs | ⟨bs, members' | text | cause'⟩ | -
      · simp [membersOf] at hopened
      · obtain rfl := Except.ok.inj hopened
        exact .member hnames hbefore hbreaks
      · simp [membersOf, ofReading] at hopened
      · simp [membersOf, ofReading] at hopened
      · simp [membersOf] at hopened
  · intro h
    cases h with
    | opening => exact .inl rfl
    | @member bs members before after name hnames hbefore hbreaks =>
        exact .inr ⟨members, rfl, (hmembers members).2 ⟨before, name, after, hnames, hbefore, hbreaks⟩⟩

/-- Reading a directory does not break down. -/
theorem ofDirectory_ne_unsupported {path : Path} {top : Location} :
    ofDirectory disk path top ≠ .error (.unsupported cause) := by
  intro h
  rcases bind_eq_error_iff.1 h with h | ⟨entries, -, h⟩
  · obtain ⟨e, -, he⟩ := mapError_eq_error_iff.1 h
    simp [Flaw.refused] at he
  rcases bind_eq_error_iff.1 h with h | ⟨found, -, h⟩
  · obtain ⟨⟨names, node⟩, -, hfile⟩ := exists_of_mapM_eq_error h
    rcases bind_eq_error_iff.1 hfile with hfile | ⟨content?, -, hfile⟩
    · obtain ⟨e, -, he⟩ := mapError_eq_error_iff.1 hfile
      simp [Flaw.refused] at he
    · cases content? with
      | none => simp at hfile
      | some content =>
          rcases bind_eq_error_iff.1 hfile with hfile | ⟨text, -, hfile⟩
          · obtain ⟨e, -, he⟩ := mapError_eq_error_iff.1 hfile
            simp at he
          · simp at hfile
  · simp at h

/-- Reading a directory of the workspace does not break down. -/
theorem ofSnapshot_ne_unsupported {directory : String} :
    ofSnapshot disk snapshot directory ≠ .error (.unsupported cause) := by
  intro h
  unfold ofSnapshot at h
  simp only at h
  split at h
  · simp at h
  · obtain ⟨e, -, hread⟩ := exists_of_mapM_eq_error (map_eq_error_iff.1 h)
    simp only [bind_eq_error_iff, pure_ne_error, and_false, exists_false, or_false,
      decodeText_ne_unsupported, mapError_eq_error_iff, Flaw.refused, reduceCtorEq] at hread

/-- Reading what lies at a path of the disk breaks down if an archive does. -/
theorem onDisk_eq_error_iff {path : Path} : onDisk disk path = .error (.unsupported cause) ↔
    ∃ content, disk.file? path = .ok (some content) ∧ path.suffix = archiveSuffix ∧
      Breaks cause content := by
  have hlookUp : ∀ {α : Type} {x : Except LookupError α},
      x.mapError Flaw.refused ≠ .error (.unsupported cause) := by
    intro α x h
    obtain ⟨e, -, he⟩ := mapError_eq_error_iff.1 h
    simp [Flaw.refused] at he
  unfold onDisk
  simp only [bind_eq_error_iff, hlookUp, false_or, mapError_eq_ok_iff]
  constructor
  · rintro ⟨top?, htop, h⟩
    cases top? with
    | some top =>
        simp only [bind_eq_error_iff, pure_ne_error, and_false, exists_false, or_false,
          ofDirectory_ne_unsupported] at h
    | none =>
        obtain ⟨content?, hfile, h⟩ : ∃ content?, disk.file? path = .ok content? ∧ _ := by
          simpa only [bind_eq_error_iff, hlookUp, false_or, mapError_eq_ok_iff] using h
        cases content? with
        | none => simp at h
        | some content =>
            simp only at h
            split at h
            · next hsuffix =>
                simp only [bind_eq_error_iff, pure_ne_error, and_false, exists_false, or_false,
                  ofArchive_eq_error_iff] at h
                exact ⟨content, hfile, hsuffix, h⟩
            · simp at h
  · rintro ⟨content, hfile, hsuffix, hbreaks⟩
    refine ⟨none, directory?_eq_none_of_file? hfile, ?_⟩
    simp only [bind_eq_error_iff, hlookUp, false_or, mapError_eq_ok_iff]
    refine ⟨some content, hfile, ?_⟩
    simp only [hsuffix, if_true]
    exact bind_eq_error_iff.2 (.inl (ofArchive_eq_error_iff.2 hbreaks))

/-- Reading what has a name in the workspace breaks down if an archive does. -/
theorem inWorkspace_eq_error_iff {name : String} :
    inWorkspace disk snapshot name = .error (.unsupported cause) ↔
      ∃ e, Snapshot.find? snapshot name = some e ∧ archiveSuffix.toList <:+ name.toList ∧
        Breaks cause e.content := by
  rcases @inWorkspace_eq disk snapshot name with ⟨e, hentry, hsuffix, heq⟩ | ⟨hother, heq⟩
  · rw [heq, map_eq_error_iff, ofArchive_eq_error_iff]
    constructor
    · exact fun hbreaks => ⟨e, hentry, hsuffix, hbreaks⟩
    · rintro ⟨e', hentry', -, hbreaks⟩
      exact Option.some.inj (hentry.symm.trans hentry') ▸ hbreaks
  · rw [heq]
    refine iff_of_false ofSnapshot_ne_unsupported ?_
    rintro ⟨e, hentry, hsuffix, -⟩
    exact hother e hentry hsuffix

/-- Looking a reference up breaks down exactly if it names an archive whose reading does. -/
theorem exists_find_eq_error_iff {reference : String} :
    (∃ cause, find disk snapshot reference = .ok (.error (.unsupported cause))) ↔
      BreaksDown disk snapshot reference := by
  simp only [find, bind_eq_ok_iff]
  constructor
  · rintro ⟨cause, path?, hpath, h⟩
    cases path? with
    | some path =>
        obtain ⟨content, hfile, hsuffix, hbreaks⟩ := onDisk_eq_error_iff.1 (pure_eq_ok_iff.1 h)
        exact ⟨path, content, cause, .onDisk hpath hfile hsuffix, hbreaks⟩
    | none =>
        obtain ⟨e, hentry, hsuffix, hbreaks⟩ := inWorkspace_eq_error_iff.1 (pure_eq_ok_iff.1 h)
        exact ⟨e.origin, e.content, cause, .inWorkspace hpath hentry hsuffix, hbreaks⟩
  · rintro ⟨path, content, cause, hnames, hbreaks⟩
    refine ⟨cause, ?_⟩
    cases hnames with
    | onDisk hpath hfile hsuffix =>
        have hread := onDisk_eq_error_iff.2 ⟨content, hfile, hsuffix, hbreaks⟩
        exact ⟨_, hpath, pure_eq_ok_iff.2 hread⟩
    | inWorkspace hpath hentry hsuffix =>
        have hread := (@inWorkspace_eq_error_iff disk _ _ _).2 ⟨_, hentry, hsuffix, hbreaks⟩
        exact ⟨_, hpath, pure_eq_ok_iff.2 hread⟩

/-! ### Several references -/

variable {reference : String} {references : List String}

/-- What is found for a reference is what it contributes. -/
theorem contributes_of_find {found : Except Flaw (Option (List Source))}
    (h : find disk snapshot reference = .ok found) :
    Contributes disk snapshot reference (sources found) := by
  by_cases hsome : ∃ part, found = .ok (some part)
  · obtain ⟨part, rfl⟩ := hsome
    exact .inl (find_eq_some_iff.1 h)
  · refine .inr ⟨?_, fun ms part hms hpart => hsome ⟨part, ?_⟩⟩
    · rcases found with flaw | - | part
      · rfl
      · rfl
      · exact absurd ⟨part, rfl⟩ hsome
    · rw [find_eq_some_iff.2 ⟨ms, hms, hpart⟩] at h
      exact (Except.ok.inj h).symm

/-- A reference is passed over or found: looking it up neither is refused nor breaks down. -/
def Found (disk : Disk) (snapshot : Snapshot) (reference : String) (part : List Source) : Prop :=
  ∃ found, find disk snapshot reference = .ok found ∧ fatalOf found = none ∧ part = sources found

/-- Loading goes through the references one by one. -/
theorem loadFrom_eq_ok_iff {all : List Source} :
    (loadFrom disk snapshot references).1 = .ok all ↔ ∃ parts, all = parts.flatten ∧
      List.Forall₂ (Found disk snapshot) references parts := by
  induction references generalizing all with
  | nil => simp [loadFrom, eq_comm]
  | cons reference references ih =>
      rw [loadFrom]
      cases hfind : find disk snapshot reference with
      | error e =>
          simp only [reduceCtorEq, false_iff]
          rintro ⟨parts, -, hparts⟩
          cases hparts with
          | cons hfirst _ =>
              obtain ⟨found, hfound, -⟩ := hfirst
              simp [hfind] at hfound
      | ok found =>
          cases hfatal : fatalOf found with
          | some cause =>
              simp only [hfatal, reduceCtorEq, false_iff]
              rintro ⟨parts, -, hparts⟩
              cases hparts with
              | cons hfirst _ =>
                  obtain ⟨found', hfound, hnone, -⟩ := hfirst
                  obtain rfl := Except.ok.inj (hfind.symm.trans hfound)
                  simp [hfatal] at hnone
          | none =>
              simp only [hfatal]
              rw [map_eq_ok_iff]
              constructor
              · rintro ⟨others, hothers, rfl⟩
                obtain ⟨parts, rfl, hparts⟩ := ih.1 hothers
                exact ⟨sources found :: parts, rfl, .cons ⟨found, hfind, hfatal, rfl⟩ hparts⟩
              · rintro ⟨parts, rfl, hparts⟩
                cases hparts with
                | cons hfirst hothers =>
                    obtain ⟨found', hfound, -, rfl⟩ := hfirst
                    obtain rfl := Except.ok.inj (hfind.symm.trans hfound)
                    exact ⟨_, ih.2 ⟨_, rfl, hothers⟩, rfl⟩

/-- Loading references takes a snapshot, and goes through the references with it. -/
theorem load_eq_ok_iff (hne : references ≠ []) {roots : List Path} {all : List Source} :
    (load disk references roots).1 = .ok all ↔ ∃ snapshot,
      (Snapshot.take disk roots).1 = .ok snapshot ∧ (loadFrom disk snapshot references).1 = .ok all := by
  rw [load, if_neg (by simpa using hne)]
  split
  · next e records htaken => simp [htaken]
  · next snapshot records htaken => simp [htaken]

/-- A single reference is loaded if there is a snapshot and looking it up neither is refused nor
breaks down. -/
theorem load_single_eq_ok_iff {roots : List Path} :
    (load disk [reference] roots).1 = .ok part ↔ ∃ snapshot,
      (Snapshot.take disk roots).1 = .ok snapshot ∧ Found disk snapshot reference part := by
  rw [load_eq_ok_iff (by simp)]
  refine exists_congr fun snapshot => and_congr_right fun _ => ?_
  rw [loadFrom_eq_ok_iff]
  constructor
  · rintro ⟨parts, rfl, hparts⟩
    cases hparts with
    | cons hfirst hothers =>
        cases hothers
        simpa using hfirst
  · intro h
    exact ⟨[part], by simp, .cons h .nil⟩

/-- Looking a reference up is refused if it is malformed, and otherwise breaks down if it names an
archive whose reading does. -/
theorem exists_found_iff : (∃ part, Found disk snapshot reference part) ↔
    ¬ Malformed reference ∧ ¬ BreaksDown disk snapshot reference := by
  rw [← exists_diskPath?_eq_error_iff, ← @exists_find_eq_error_iff disk snapshot]
  unfold Found
  cases hfind : find disk snapshot reference with
  | error e =>
      have hrefused : ∃ e, diskPath? reference = .error e := by
        rcases bind_eq_error_iff.1 hfind with h | ⟨path?, -, h⟩
        · exact ⟨e, h⟩
        · cases path? <;> simp at h
      simp [hrefused]
  | ok found =>
      have hpath : ¬ ∃ e, diskPath? reference = .error e := by
        obtain ⟨path?, h, -⟩ := bind_eq_ok_iff.1 hfind
        simp [h]
      rcases found with (e | text | cause) | found
      · simp [hpath, fatalOf, Flaw.fatal?]
      · simp [hpath, fatalOf, Flaw.fatal?]
      · simp [hpath, fatalOf, Flaw.fatal?]
      · simp [hpath, fatalOf]

/-! ### Snapshots -/

/-- The system refuses to look up the root, to list a directory below it, or to look up an entry
there. -/
def Withheld (disk : Disk) (root : Path) : Prop :=
  (∃ e, disk.directory? root = .error e) ∨ ∃ top, disk.directory? root = .ok (some top) ∧
    ((∃ e, disk.list root top = .error e) ∨
      ∃ entry ∈ disk.entriesBelow top, ∃ e, disk.file? (root.below entry.1) = .error e)

/-- Entries are added to a snapshot unless the system refuses to look one of them up. -/
theorem exists_addEntries_iff {root : Path} {kept : Snapshot} {entries : List (List String × Node)} :
    (∃ added, (Snapshot.addEntries disk root kept entries).1 = .ok added) ↔
      ¬ ∃ entry ∈ entries, ∃ e, disk.file? (root.below entry.1) = .error e := by
  induction entries generalizing kept with
  | nil => simp [Snapshot.addEntries]
  | cons entry entries ih =>
      obtain ⟨names, node⟩ := entry
      rw [Snapshot.addEntries]
      cases hfile : disk.file? (root.below names) with
      | error e => simp [hfile]
      | ok content? =>
          simp only [List.mem_cons, exists_eq_or_imp, hfile, reduceCtorEq, exists_false, false_or]
          cases content? with
          | none => exact ih
          | some content =>
              simp only
              split
              · exact ih
              · split
                · exact ih
                · exact ih

/-- There is a snapshot of several roots unless one of them is withheld. -/
theorem exists_addRoots_iff {kept : Snapshot} {roots : List Path} :
    (∃ all, (Snapshot.addRoots disk kept roots).1 = .ok all) ↔ ∀ root ∈ roots, ¬ Withheld disk root := by
  induction roots generalizing kept with
  | nil => simp [Snapshot.addRoots]
  | cons root roots ih =>
      rw [Snapshot.addRoots, List.forall_mem_cons, Withheld]
      cases hroot : disk.directory? root with
      | error e => simp
      | ok top? =>
          cases top? with
          | none => simpa using ih
          | some top =>
              cases hlist : disk.list root top with
              | error e => simp [hlist]
              | ok entries =>
                  obtain rfl := eq_entriesBelow_of_list hlist
                  simp only [reduceCtorEq, exists_false, false_or, Except.ok.injEq, Option.some.injEq,
                    exists_eq_left', hlist, ← @exists_addEntries_iff disk root kept]
                  cases Snapshot.addEntries disk root kept (disk.entriesBelow top) with
                  | mk added records =>
                      cases added with
                      | error e => simp
                      | ok added => simpa using ih

/-- **Libraries are isolated from each other**, with three exceptions. Loading references comes to a
result exactly if no root is withheld, no reference is malformed, and no reference names an archive
whose reading breaks down. The result is, in order, what each reference gives alone, and that is what
it contributes: one source for each of the members that it stands for, or nothing. -/
theorem load_eq_parts (disk : Disk) (references : List String) (roots : List Path) :
    ((∃ all, (load disk references roots).1 = .ok all) ↔
      references = [] ∨ (∀ root ∈ roots, ¬ Withheld disk root) ∧
        ∀ snapshot, (Snapshot.take disk roots).1 = .ok snapshot → ∀ reference ∈ references,
          ¬ Malformed reference ∧ ¬ BreaksDown disk snapshot reference) ∧
    ∀ all, (load disk references roots).1 = .ok all ↔ ∃ parts, all = parts.flatten ∧
      List.Forall₂ (fun reference part => (load disk [reference] roots).1 = .ok part ∧
        ∃ snapshot, (Snapshot.take disk roots).1 = .ok snapshot ∧
          Contributes disk snapshot reference part) references parts := by
  by_cases hne : references = []
  · subst hne
    simp [load, eq_comm]
  have halone : ∀ reference part, ((load disk [reference] roots).1 = .ok part ∧
      ∃ snapshot, (Snapshot.take disk roots).1 = .ok snapshot ∧
        Contributes disk snapshot reference part) ↔
      ∃ snapshot, (Snapshot.take disk roots).1 = .ok snapshot ∧ Found disk snapshot reference part := by
    intro reference part
    rw [load_single_eq_ok_iff, and_iff_left_iff_imp]
    rintro ⟨snapshot, htaken, found, hfound, -, rfl⟩
    exact ⟨snapshot, htaken, contributes_of_find hfound⟩
  simp only [halone, load_eq_ok_iff hne, loadFrom_eq_ok_iff, hne, false_or,
    ← @exists_addRoots_iff disk []]
  change ((∃ all snapshot, (Snapshot.take disk roots).1 = .ok snapshot ∧ _) ↔
    (∃ snapshot, (Snapshot.take disk roots).1 = .ok snapshot) ∧ _) ∧ _
  cases (Snapshot.take disk roots).1 with
  | error e =>
      refine ⟨by simp, fun all => ?_⟩
      simp only [reduceCtorEq, false_and, exists_false, false_iff]
      rintro ⟨parts, -, hparts⟩
      cases hparts with
      | nil => exact hne rfl
      | cons hfirst _ => exact hfirst
  | ok snapshot =>
      simp only [Except.ok.injEq, exists_eq_left', exists_eq', true_and, forall_eq', implies_true,
        and_true, ← exists_found_iff, ← exists_forall₂_iff]
      rw [exists_comm]
      simp

/-! ### The URIs of members -/

/-- The URI of an archive and the name of a member, as the URI of the member tells them. Behind the
four characters of the scheme, the archive ends at the first exclamation mark, which a slash
follows. -/
def ofMemberUri (uri : String) : String × String :=
  let cs := uri.toList.drop 4
  (String.ofList (cs.takeWhile (· ≠ '!')), String.ofList ((cs.dropWhile (· ≠ '!')).drop 2))

/-- The parts of the URI of a member are read back, whatever the name of the member. -/
theorem ofMemberUri_memberUri {archive : String} (h : '!' ∉ archive.toList) (member : String) :
    ofMemberUri (memberUri archive member) = (archive, member) := by
  have hkept : ∀ c ∈ archive.toList, decide (c ≠ '!') = true := by
    intro c hc
    exact decide_eq_true fun heq => h (heq ▸ hc)
  have hlist : (memberUri archive member).toList.drop 4 =
      archive.toList ++ '!' :: '/' :: member.toList := by
    simp [memberUri, String.toList_append]
  have htake := @List.takeWhile_append_of_pos _ _ _ ('!' :: '/' :: member.toList) hkept
  have hdrop := @List.dropWhile_append_of_pos _ _ _ ('!' :: '/' :: member.toList) hkept
  simp only [ofMemberUri, hlist, htake, hdrop]
  simp

/-- **The URIs of members are unambiguous.** From an absolute working directory, two members of
archives have the same URI exactly if the paths of the archives are one as seen from there and the
names of the members are the same. -/
theorem memberUri_toUri_eq_iff {wd p q : Path} (hwd : wd.isAbsolute = true) (hn : wd.Normal)
    (hp : p.Normal) (hq : q.Normal) (m n : String) :
    memberUri (p.toUri wd) m = memberUri (q.toUri wd) n ↔ wd.join p = wd.join q ∧ m = n := by
  rw [← Path.toUri_eq_iff hwd hn hp hq]
  constructor
  · intro h
    have hread := congrArg ofMemberUri h
    rw [ofMemberUri_memberUri (Path.exclamation_not_mem_toUri wd p),
      ofMemberUri_memberUri (Path.exclamation_not_mem_toUri wd q)] at hread
    exact Prod.mk.inj hread
  · rintro ⟨harchive, rfl⟩
    rw [harchive]

/-- Seen from `/ws`, an archive has one URI for a member however its path is spelled; and members
whose paths would run together with those of their archives have different ones. -/
theorem memberUri_toUri_eq_iff_nested :
    let wd : Path := ⟨.single, ["ws"]⟩
    wd.isAbsolute = true ∧ wd.Normal ∧
    (let p : Path := ⟨.relative, ["a!"]⟩
      let q : Path := ⟨.single, ["ws", "a!"]⟩
      p.Normal ∧ q.Normal ∧ memberUri (p.toUri wd) "b!/c.npl" = memberUri (q.toUri wd) "b!/c.npl") ∧
    let p : Path := ⟨.single, ["a"]⟩
    let q : Path := ⟨.single, ["a!", "b"]⟩
    p.Normal ∧ q.Normal ∧ memberUri p.text "b!/c.npl" = memberUri q.text "c.npl" ∧
      memberUri (p.toUri wd) "b!/c.npl" ≠ memberUri (q.toUri wd) "c.npl" := by
  have hwd : (⟨.single, ["ws"]⟩ : Path).isAbsolute = true := rfl
  have hn : (⟨.single, ["ws"]⟩ : Path).Normal := by decide
  have hp : (⟨.relative, ["a!"]⟩ : Path).Normal := by decide
  have hq : (⟨.single, ["ws", "a!"]⟩ : Path).Normal := by decide
  have hp' : (⟨.single, ["a"]⟩ : Path).Normal := by decide
  have hq' : (⟨.single, ["a!", "b"]⟩ : Path).Normal := by decide
  refine ⟨hwd, hn, ⟨hp, hq, (memberUri_toUri_eq_iff hwd hn hp hq _ _).2 ⟨rfl, rfl⟩⟩,
    hp', hq', by decide, fun h => ?_⟩
  exact absurd ((memberUri_toUri_eq_iff hwd hn hp' hq' _ _).1 h).2 (by decide)

end Npl.Library
