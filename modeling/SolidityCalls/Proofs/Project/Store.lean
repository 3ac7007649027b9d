import SolidityCalls.Project
import SolidityCalls.Proofs.FileSystem.Edit

/-! Storing files in a directory. All of them are there afterwards; each of them has the content
it was given unless the name of another one leads to the same location. -/
namespace SolidityCalls

namespace Host

variable {host : Host} {p : Path}

/-- The host after its files have changed. -/
abbrev after (host : Host) (files : FileSystem) : Host := { host with files }

theorem find_eq_ok_iff {loc : Location} {e : Entry} :
    host.find p = .ok (loc, e) ↔
      fault? p = none ∧ host.files.find (host.parts p) = .ok (loc, e) := by
  unfold find
  cases fault? p <;> simp

/-- What is found stays where it is, and a directory stays one. -/
theorem find_keeps {files : FileSystem} (h : FileSystem.Keeps host.files files) {loc : Location}
    {e : Entry} (hfind : host.find p = .ok (loc, e)) :
    ∃ e', (host.after files).find p = .ok (loc, e') ∧ files.entryAt? loc = some e' ∧
      host.files.entryAt? loc = some e := by
  obtain ⟨hfault, hfind⟩ := find_eq_ok_iff.mp hfind
  have hwalk := FileSystem.find_eq_ok_iff.mp hfind
  obtain ⟨e', hwalk', he'⟩ := h.walk hwalk
  exact ⟨e', find_eq_ok_iff.mpr ⟨hfault, FileSystem.find_eq_ok_iff.mpr hwalk'⟩, he',
    (FileSystem.walk_end (.root _) hwalk).2⟩

theorem find_directory_keeps {files : FileSystem} (h : FileSystem.Keeps host.files files)
    {loc : Location} (hfind : host.find p = .ok (loc, .directory)) :
    (host.after files).find p = .ok (loc, .directory) := by
  obtain ⟨e', hfind', he', he⟩ := find_keeps h hfind
  obtain rfl := Option.some.inj (he'.symm.trans (h.directory he))
  exact hfind'

theorem find_file_keeps {files : FileSystem} (h : FileSystem.Keeps host.files files)
    {loc : Location} {content : Content} (hfind : host.find p = .ok (loc, .file content)) :
    ∃ content', (host.after files).find p = .ok (loc, .file content') ∧
      files.entryAt? loc = some (.file content') := by
  obtain ⟨e', hfind', he', he⟩ := find_keeps h hfind
  obtain ⟨content', hcontent'⟩ := h.file he
  obtain rfl := Option.some.inj (he'.symm.trans hcontent')
  exact ⟨content', hfind', hcontent'⟩

theorem read_of_find {loc : Location} {content : Content}
    (h : host.find p = .ok (loc, .file content)) : host.read p = .ok content := by
  simp only [read, h]

/-- Directories are made along the components of a path, from a base that its anchor names. -/
theorem makeDirectories_eq (host : Host) (p : Path) (hfault : fault? p = none) :
    ∃ base, host.parts p = base ++ p.parts ∧ (∀ c ∈ base, c ∈ host.workingDirectory) ∧
      host.makeDirectories p =
        match host.files.ensureDirectories base p.parts.reverse with
        | (files, none) => (files, none)
        | (files, some (e, parts)) => (files, some (.system e ⟨p.anchor, parts⟩)) := by
  unfold makeDirectories parts
  rw [hfault]
  cases p.anchor with
  | relative => exact ⟨host.workingDirectory, rfl, fun _ => id, rfl⟩
  | root => exact ⟨[], rfl, by simp, rfl⟩
  | doubleRoot => exact ⟨[], rfl, by simp, rfl⟩

theorem makeDirectories_of_fault {e : SystemError} (hfault : fault? p = some e) :
    host.makeDirectories p = (host.files, some (.system e p)) := by
  simp only [makeDirectories, hfault]

theorem makeDirectories_makes (host : Host) (p : Path) :
    FileSystem.MakesDirectories (host.parts p) host.files (host.makeDirectories p).1 := by
  cases hfault : fault? p with
  | some e =>
    rw [makeDirectories_of_fault hfault]
    exact .refl
  | none =>
    obtain ⟨base, hparts, _, heq⟩ := host.makeDirectories_eq p hfault
    have hmakes := host.files.ensureDirectories_makes base p.parts.reverse
    rw [List.reverse_reverse, ← hparts] at hmakes
    rw [heq]
    split
    next h => simpa only [h] using hmakes
    next h => simpa only [h] using hmakes

theorem makeDirectories_find {files : FileSystem} (hp : p.IsPlain)
    (hw : ∀ c ∈ host.workingDirectory, IsComponent c)
    (h : host.makeDirectories p = (files, none)) :
    ∃ loc, (host.after files).find p = .ok (loc, .directory) := by
  cases hfault : fault? p with
  | some e => simp [makeDirectories_of_fault hfault] at h
  | none =>
    obtain ⟨base, hparts, hbase, heq⟩ := host.makeDirectories_eq p hfault
    rw [heq] at h
    split at h
    next files' hensure =>
      obtain ⟨rfl, _⟩ := Prod.mk.inj h
      have hplain : ∀ c ∈ base ++ p.parts.reverse.reverse, IsComponent c := by
        rw [List.reverse_reverse]
        exact List.forall_mem_append.mpr ⟨fun c hc => hw c (hbase c hc), hp⟩
      obtain ⟨loc, hfind⟩ := FileSystem.ensureDirectories_find hplain hensure
      rw [List.reverse_reverse, ← hparts] at hfind
      exact ⟨loc, find_eq_ok_iff.mpr ⟨hfault, hfind⟩⟩
    next => simp at h

/-- A directory that is there is not made again. -/
theorem makeDirectories_of_find {loc : Location} (hp : p.IsPlain)
    (hw : ∀ c ∈ host.workingDirectory, IsComponent c) (h : host.find p = .ok (loc, .directory)) :
    host.makeDirectories p = (host.files, none) := by
  obtain ⟨hfault, hfind⟩ := find_eq_ok_iff.mp h
  obtain ⟨base, hparts, hbase, heq⟩ := host.makeDirectories_eq p hfault
  have hplain : ∀ c ∈ base ++ p.parts.reverse.reverse, IsComponent c := by
    rw [List.reverse_reverse]
    exact List.forall_mem_append.mpr ⟨fun c hc => hw c (hbase c hc), hp⟩
  rw [hparts, ← List.reverse_reverse p.parts] at hfind
  rw [heq, FileSystem.ensureDirectories_of_find hplain hfind]

theorem parse_of_isComponent {name : String} (h : IsComponent name) :
    Path.parse name = ⟨.relative, [name]⟩ := by
  have hplain : Path.IsPlain ⟨.relative, [name]⟩ := List.forall_mem_singleton.mpr h
  have hrender : (⟨.relative, [name]⟩ : Path).render = name := by
    simp [Path.render, Anchor.text]
  exact hrender ▸ Path.parse_render hplain

theorem child_of_isComponent (p : Path) {name : String} (hname : IsComponent name) :
    p.child name = ⟨p.anchor, p.parts ++ [name]⟩ := by
  rw [Path.child, parse_of_isComponent hname]
  rfl

theorem child_absolute (loc : Location) {name : String} (h : IsComponent name) :
    (Path.absolute loc).child name = Path.absolute (loc ++ [name]) :=
  child_of_isComponent _ h

theorem parts_child (host : Host) (p : Path) {name : String} (h : IsComponent name) :
    host.parts (p.child name) = host.parts p ++ [name] := by
  rw [child_of_isComponent p h]
  cases hp : p.anchor <;> simp [parts, hp]

/-- A file is written under its name in a directory, where no directory and no link stands. -/
theorem write_child {loc : Location} {name : String} (h : host.find p = .ok (loc, .directory))
    (hname : FileSystem.IsFileName name) (hfault : fault? (p.child name) = none)
    (hfree : host.files.IsFree (loc ++ [name])) (bytes : Bytes) :
    host.write (p.child name) bytes =
      .ok (host.files.put (loc ++ [name]) (.file ⟨bytes, default⟩)) := by
  have hlink : ∀ target, host.files.entryAt? (loc ++ [name]) ≠ some (.link target) := by
    intro target htarget
    obtain ⟨_, hcontent⟩ := hfree _ htarget
    cases hcontent
  have hwalk := FileSystem.walk_child true (find_eq_ok_iff.mp h).2 hname hlink
  rw [← host.parts_child p hname.component] at hwalk
  have hwrite : host.files.writeFile (host.parts (p.child name)) ⟨bytes, default⟩ =
      .ok (host.files.put (loc ++ [name]) (.file ⟨bytes, default⟩)) := by
    rw [FileSystem.writeFile, hwalk]
    cases he : host.files.entryAt? (loc ++ [name]) with
    | none => rfl
    | some e =>
      obtain ⟨content, rfl⟩ := hfree e he
      rfl
  simp only [write, hfault, hwrite]

/-- A file that was written is found with its content. -/
theorem write_spec {bytes : Bytes} {files : FileSystem} (h : host.write p bytes = .ok files) :
    ∃ loc, host.files.IsFree loc ∧ files = host.files.put loc (.file ⟨bytes, default⟩) ∧
      (host.after files).find p = .ok (loc, .file ⟨bytes, default⟩) := by
  unfold write at h
  split at h
  next => cases h
  next => cases h
  next files' hfault hwrite =>
    obtain rfl := Except.ok.inj h
    obtain ⟨loc, hfree, hput, hfind⟩ := FileSystem.writeFile_spec hwrite
    exact ⟨loc, hfree, hput, find_eq_ok_iff.mpr ⟨hfault, hfind⟩⟩

end Host

namespace Project

variable {host : Host} {directory : Path} {files : FileSystem}

/-- Storing a file makes the directory, writes the file and goes on with the others. -/
theorem store_cons {name : String} {bytes : Bytes} {rest : List (String × Bytes)}
    (h : store host directory ((name, bytes) :: rest) = (files, none)) :
    ∃ made written, host.makeDirectories directory = (made, none) ∧
      (host.after made).write (directory.child name) bytes = .ok written ∧
      store (host.after written) directory rest = (files, none) := by
  rw [store] at h
  split at h
  next => simp at h
  next made hmake =>
    split at h
    next => simp at h
    next written hwrite => exact ⟨made, written, hmake, hwrite, h⟩

/-- Files are stored one after the other. -/
theorem store_append {contents : List (String × Bytes)}
    (h : store host directory contents = (files, none)) (others : List (String × Bytes)) :
    store host directory (contents ++ others) = store (host.after files) directory others := by
  induction contents generalizing host with
  | nil =>
    obtain ⟨rfl, _⟩ := Prod.mk.inj h
    rfl
  | cons f rest ih =>
    obtain ⟨made, written, hmake, hwrite, hrest⟩ := store_cons h
    rw [List.cons_append, store, hmake]
    dsimp only
    rw [hwrite]
    exact ih hrest

theorem made_extends {made : FileSystem} (h : host.makeDirectories directory = (made, none)) :
    FileSystem.Extends host.files made := by
  have hmakes := host.makeDirectories_makes directory
  rw [h] at hmakes
  exact hmakes.toExtends

theorem store_keeps {contents : List (String × Bytes)}
    (h : store host directory contents = (files, none)) : FileSystem.Keeps host.files files := by
  induction contents generalizing host with
  | nil =>
    obtain ⟨rfl, _⟩ := Prod.mk.inj h
    exact .refl _
  | cons f rest ih =>
    obtain ⟨made, written, hmake, hwrite, hrest⟩ := store_cons h
    obtain ⟨loc, hfree, rfl, _⟩ := Host.write_spec hwrite
    exact ((made_extends hmake).keeps.trans (FileSystem.keeps_put_file hfree _)).trans (ih hrest)

theorem store_directory {contents : List (String × Bytes)} (hne : contents ≠ [])
    (hp : directory.IsPlain) (hw : ∀ c ∈ host.workingDirectory, IsComponent c)
    (h : store host directory contents = (files, none)) :
    ∃ loc, (host.after files).find directory = .ok (loc, .directory) := by
  cases contents with
  | nil => exact absurd rfl hne
  | cons f rest =>
    obtain ⟨made, written, hmake, hwrite, hrest⟩ := store_cons h
    obtain ⟨loc, hfind⟩ := Host.makeDirectories_find hp hw hmake
    obtain ⟨_, hfree, rfl, _⟩ := Host.write_spec hwrite
    have hkeeps := (FileSystem.keeps_put_file hfree ⟨f.2, default⟩).trans (store_keeps hrest)
    exact ⟨loc, Host.find_directory_keeps hkeeps hfind⟩

/-- A name that was stored leads to a file. -/
theorem store_file {contents : List (String × Bytes)}
    (h : store host directory contents = (files, none)) {f : String × Bytes} (hf : f ∈ contents) :
    ∃ loc content, (host.after files).find (directory.child f.1) = .ok (loc, .file content) := by
  induction contents generalizing host with
  | nil => cases hf
  | cons g rest ih =>
    obtain ⟨made, written, hmake, hwrite, hrest⟩ := store_cons h
    rcases List.mem_cons.mp hf with rfl | hf
    · obtain ⟨loc, _, _, hfind⟩ := Host.write_spec hwrite
      obtain ⟨content, hfind', _⟩ := Host.find_file_keeps (store_keeps hrest) hfind
      exact ⟨loc, content, hfind'⟩
    · have hstored := ih hrest hf
      exact hstored

/-- A file that was there before is as it was, unless a stored name leads to it. -/
theorem store_frame {contents : List (String × Bytes)} {loc : Location} {content : Content}
    (hcontent : host.files.entryAt? loc = some (.file content))
    (h : store host directory contents = (files, none)) :
    files.entryAt? loc = some (.file content) ∨
      ∃ f ∈ contents, ∃ e, (host.after files).find (directory.child f.1) = .ok (loc, e) := by
  induction contents generalizing host with
  | nil =>
    obtain ⟨rfl, _⟩ := Prod.mk.inj h
    exact .inl hcontent
  | cons g rest ih =>
    obtain ⟨made, written, hmake, hwrite, hrest⟩ := store_cons h
    obtain ⟨loc', hfree, rfl, hfind⟩ := Host.write_spec hwrite
    by_cases hloc : loc = loc'
    · obtain ⟨content', hfind', _⟩ := Host.find_file_keeps (store_keeps hrest) hfind
      exact .inr ⟨g, List.mem_cons_self, _, hloc ▸ hfind'⟩
    · have hwritten :
          (made.put loc' (.file ⟨g.2, default⟩)).entryAt? loc = some (.file content) := by
        rw [FileSystem.entryAt?_put made hfree.ne_nil, if_neg hloc]
        exact made_extends hmake hcontent
      rcases ih hwritten hrest with hkept | ⟨f, hf, he⟩
      · exact .inl hkept
      · exact .inr ⟨f, List.mem_cons_of_mem _ hf, he⟩

/-- Each of the stored files is read with the content it was given, if no two names lead to one
location. -/
theorem store_read {contents : List (String × Bytes)}
    (h : store host directory contents = (files, none))
    (hapart : contents.Pairwise fun f g => ∀ loc e e',
      (host.after files).find (directory.child f.1) = .ok (loc, e) →
      (host.after files).find (directory.child g.1) ≠ .ok (loc, e'))
    {f : String × Bytes} (hf : f ∈ contents) :
    (host.after files).read (directory.child f.1) = .ok ⟨f.2, default⟩ := by
  induction contents generalizing host with
  | nil => cases hf
  | cons g rest ih =>
    obtain ⟨hg, hrestApart⟩ := List.pairwise_cons.mp hapart
    obtain ⟨made, written, hmake, hwrite, hrest⟩ := store_cons h
    rcases List.mem_cons.mp hf with rfl | hf
    · obtain ⟨loc, hfree, rfl, hfind⟩ := Host.write_spec hwrite
      have hloc : (made.put loc (.file ⟨f.2, default⟩)).entryAt? loc =
          some (.file ⟨f.2, default⟩) := by
        rw [FileSystem.entryAt?_put made hfree.ne_nil, if_pos rfl]
      obtain ⟨content, hfind', hcontent⟩ := Host.find_file_keeps (store_keeps hrest) hfind
      rcases store_frame hloc hrest with hkept | ⟨g, hgmem, e, he⟩
      · obtain rfl := Entry.file.inj (Option.some.inj (hkept.symm.trans hcontent))
        exact Host.read_of_find hfind'
      · exact absurd he (hg g hgmem loc _ e hfind')
    · have hread := ih hrest hrestApart hf
      exact hread

/-- Each file put under its name at a location. -/
def putAll (fs : FileSystem) (loc : Location) (contents : List (String × Bytes)) : FileSystem :=
  contents.foldl (fun fs f => fs.put (loc ++ [f.1]) (.file ⟨f.2, default⟩)) fs

theorem entryAt?_putAll (fs : FileSystem) (loc : Location) (contents : List (String × Bytes))
    (x : Location) : (putAll fs loc contents).entryAt? x = fs.entryAt? x ∨
      ∃ content, (putAll fs loc contents).entryAt? x = some (.file content) := by
  induction contents generalizing fs with
  | nil => exact .inl rfl
  | cons f contents ih =>
    rcases ih (fs.put (loc ++ [f.1]) (.file ⟨f.2, default⟩)) with h | h
    · rw [FileSystem.entryAt?_put fs (by simp)] at h
      split at h
      next => exact .inr ⟨_, h⟩
      next => exact .inl h
    · exact .inr h

/-- Files are stored under their names in a directory that is there, if no directory and no link
stands in their way. -/
theorem store_eq_putAll {loc : Location} {contents : List (String × Bytes)}
    (hp : directory.IsPlain) (hw : ∀ c ∈ host.workingDirectory, IsComponent c)
    (hdir : host.find directory = .ok (loc, .directory))
    (hnames : ∀ f ∈ contents, FileSystem.IsFileName f.1)
    (hfault : ∀ f ∈ contents, Host.fault? (directory.child f.1) = none)
    (hfree : ∀ f ∈ contents, host.files.IsFree (loc ++ [f.1])) :
    store host directory contents = (putAll host.files loc contents, none) := by
  induction contents generalizing host with
  | nil => rfl
  | cons f contents ih =>
    obtain ⟨hname, hnames⟩ := List.forall_mem_cons.mp hnames
    obtain ⟨hfaultf, hfault⟩ := List.forall_mem_cons.mp hfault
    obtain ⟨hfreef, hfree⟩ := List.forall_mem_cons.mp hfree
    have hkeeps := FileSystem.keeps_put_file hfreef ⟨f.2, default⟩
    have hwrite := Host.write_child hdir hname hfaultf hfreef f.2
    rw [store, Host.makeDirectories_of_find hp hw hdir]
    simp only [hwrite]
    refine ih hw (Host.find_directory_keeps hkeeps hdir) hnames hfault fun g hg e he => ?_
    rw [FileSystem.entryAt?_put _ hfreef.ne_nil] at he
    split at he
    next => exact ⟨_, (Option.some.inj he).symm⟩
    next => exact hfree g hg e he

end Project

end SolidityCalls
