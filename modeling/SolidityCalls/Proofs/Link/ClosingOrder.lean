import SolidityCalls.Proofs.Link.SharedRegistry

/-! The order in which files are closed. A file that has been entered and not closed is open, and
every open file leads to the one being read. So when a file is closed, each of its imports has been
closed before it or leads back to it. -/
namespace SolidityCalls

namespace Sources

/-- Files in an order in which the imports of each file come before it, unless they lead back. -/
inductive ClosesInOrder (s : Sources) : List (Source × List Path) → Prop where
  | nil : ClosesInOrder s []
  | close {closed : List (Source × List Path)} {d : Source × List Path}
      (before : ClosesInOrder s closed)
      (himports : ∀ target ∈ d.2, target ∈ closed.map (·.1.path) ∨ s.Reaches target d.1.path) :
      ClosesInOrder s (closed ++ [d])

variable {s : Sources} {order : Order} {entry file : Path} {stack : List Path} {w w' : Walk}

theorem ClosesInOrder.mem_or_reaches {closed : List (Source × List Path)}
    (h : s.ClosesInOrder closed) {d : Source × List Path} (hd : d ∈ closed) {target : Path}
    (htarget : target ∈ d.2) : target ∈ closed.map (·.1.path) ∨ s.Reaches target d.1.path := by
  induction h with
  | nil => cases hd
  | close _ himports ih =>
    rw [List.map_append, List.mem_append]
    rcases List.mem_append.mp hd with hd | hd
    · exact (ih hd).imp_left .inl
    · obtain rfl := List.mem_singleton.mp hd
      exact (himports target htarget).imp_left .inl

/-- An import that is closed after its file leads back to the file. -/
theorem ClosesInOrder.pairwise {closed : List (Source × List Path)} (h : s.ClosesInOrder closed)
    (hnodup : (closed.map (·.1.path)).Nodup) :
    closed.Pairwise fun d e => e.1.path ∈ d.2 → s.Reaches e.1.path d.1.path := by
  induction h with
  | nil => exact .nil
  | @close closed d before _ ih =>
    rw [List.map_append, List.map_singleton, List.nodup_append] at hnodup
    obtain ⟨hclosed, _, hnew⟩ := hnodup
    refine List.pairwise_append.mpr ⟨ih hclosed, List.pairwise_singleton _ _, ?_⟩
    intro e he d' hd' himport
    obtain rfl := List.mem_singleton.mp hd'
    refine (before.mem_or_reaches he himport).resolve_left fun hmem => ?_
    exact hnew _ hmem _ (List.mem_singleton_self _) rfl

/-- The files that a job goes on from lead to the file it is about. -/
def Job.IsLedToBy (s : Sources) (entry : Path) (stack : List Path) : Job → Prop
  | .visit file => s.Reaches entry file ∧ ∀ f ∈ stack, s.Reaches f file
  | .follow file targets =>
    s.Reaches entry file ∧ (∀ f ∈ stack, s.Reaches f file) ∧ ∀ t ∈ targets, s.Imports file t.2

/-- A walk whose open files are those of a stack. -/
structure HasOpen (s : Sources) (entry : Path) (stack : List Path) (w : Walk) : Prop where
  visited_eq : w.visited = w.opened.map Path.render
  reaches : ∀ f ∈ w.opened, s.Reaches entry f
  perm : (w.closed.map (·.1.path) ++ stack).Perm w.opened

/-- Reading a file opens it. -/
theorem HasOpen.open (h : s.HasOpen entry stack w) {source : Source}
    (hload : s.load file = .ok source) (hreach : s.Reaches entry file)
    (hnew : file.render ∉ w.visited) :
    s.HasOpen entry (file :: stack) ((w.enter file).note (.opened source)) := by
  obtain rfl := path_of_load hload
  refine ⟨?_, ?_, ?_⟩
  · rw [Walk.visited_note, Walk.visited_enter, NameSet.add, if_neg hnew, h.visited_eq]
    simp
  · intro f hf
    rw [Walk.opened_note_opened, Walk.opened_enter] at hf
    rcases List.mem_append.mp hf with hf | hf
    · exact h.reaches f hf
    · exact List.mem_singleton.mp hf ▸ hreach
  · simpa using List.perm_middle.trans
      ((h.perm.cons source.path).trans (List.perm_append_singleton _ _).symm)

/-- A job leaves the open files as they are. -/
theorem Run.hasOpen (hcover : order.IsCovering) {job : Job} (h : Run s order job w w')
    (hfresh : job.IsFresh w) (hled : job.IsLedToBy s entry stack)
    (hw : s.HasOpen entry stack w) : s.HasOpen entry stack w' := by
  have hstart : job.StartsIn (s.Reaches entry) := by
    cases job with
    | visit file => exact hled.1
    | follow file targets => exact fun t ht => hled.1.tail (hled.2.2 t ht)
  exact ⟨h.visited_eq_opened hfresh hw.visited_eq, h.reaches_of_mem_opened hcover hstart hw.reaches,
    h.closed_perm hw.perm⟩

/-- A file that was entered has been closed, or it is open. -/
theorem HasOpen.mem_closed_or_stack (h : s.HasOpen entry stack w) (hentry : entry.IsResolved)
    (hdeps : s.dependencies.IsResolved) (hfile : file.IsResolved) (hmem : file.render ∈ w.visited) :
    file ∈ w.closed.map (·.1.path) ∨ file ∈ stack := by
  have hopened : file ∈ w.opened :=
    mem_opened_of_render_mem h.reaches hentry hdeps hfile (h.visited_eq ▸ hmem)
  exact List.mem_append.mp (h.perm.mem_iff.mpr hopened)

/-- Every job closes files in order, provided that the open files lead to the file it is about. -/
theorem Run.closesInOrder (hcover : order.IsCovering) (hentry : entry.IsResolved)
    (hdeps : s.dependencies.IsResolved) {job : Job} (h : Run s order job w w')
    (hfresh : job.IsFresh w) (hled : job.IsLedToBy s entry stack) (hw : s.HasOpen entry stack w)
    (hclosed : s.ClosesInOrder w.closed) : s.ClosesInOrder w'.closed := by
  induction h generalizing stack with
  | @visit file w w' source imports hload himports rest ih =>
    obtain ⟨hreach, hstack⟩ := hled
    have hopen := hw.open hload hreach hfresh
    have himport : ∀ target ∈ imports, s.Imports file target := fun target ht =>
      ⟨source, imports, hload, himports, ht⟩
    -- While the file is open it is on the stack, and it leads to itself.
    have hled : (Job.follow file (order source imports)).IsLedToBy s entry (file :: stack) := by
      refine ⟨hreach, List.forall_mem_cons.mpr ⟨.refl, hstack⟩, fun t ht => ?_⟩
      exact himport t.2 ((hcover source imports t.2).mpr ⟨t.1, ht⟩)
    rw [Walk.closed_note_closed]
    refine .close (ih trivial hled hopen (by simpa using hclosed)) fun target ht => ?_
    obtain ⟨reason, hmem⟩ := (hcover source imports target).mp ht
    have hresolved : target.IsResolved :=
      (himport target ht).isResolved hdeps (Reaches.isResolved hreach hdeps hentry)
    have hdone := rest.hasOpen hcover trivial hled hopen
    rw [path_of_load hload]
    have hvisited := rest.mem_visited_of_mem hmem
    exact (hdone.mem_closed_or_stack hentry hdeps hresolved hvisited).imp_right
      fun hopen => hled.2.1 target hopen
  | done => exact hclosed
  | skip _ _ ih =>
    obtain ⟨hreach, hstack, htargets⟩ := hled
    exact ih trivial ⟨hreach, hstack, (List.forall_mem_cons.mp htargets).2⟩ hw hclosed
  | @enter file target reason targets w w₁ w' hnew first _ ihfirst ihrest =>
    obtain ⟨hreach, hstack, htargets⟩ := hled
    obtain ⟨himport, htargets⟩ := List.forall_mem_cons.mp htargets
    have hfresh : (Job.visit target).IsFresh (w.note (.followed file target reason)) :=
      fun hmem => hnew (Walk.hasEntered_iff.mpr hmem)
    have hled : (Job.visit target).IsLedToBy s entry stack :=
      ⟨hreach.tail himport, fun f hf => (hstack f hf).tail himport⟩
    have hw : s.HasOpen entry stack (w.note (.followed file target reason)) :=
      ⟨by simpa using hw.visited_eq, by simpa using hw.reaches, by simpa using hw.perm⟩
    exact ihrest trivial ⟨hreach, hstack, htargets⟩ (first.hasOpen hcover hfresh hled hw)
      (ihfirst hfresh hled hw (by simpa using hclosed))

/-- A walk closes each file after the imports that do not lead back to it. -/
theorem walk_closesInOrder (hcover : order.IsCovering) (hentry : entry.IsResolved)
    (hdeps : s.dependencies.IsResolved) (h : s.walk order entry [] = .ok w) :
    s.ClosesInOrder w.closed :=
  (run_of_visit h).closesInOrder hcover hentry hdeps List.not_mem_nil ⟨.refl, by simp⟩
    ⟨rfl, by simp, .refl _⟩ .nil

/-- The entry is closed last. -/
theorem walk_closed_eq_concat (h : s.walk order entry [] = .ok w) :
    ∃ closed d, w.closed = closed ++ [d] ∧ d.1.path = entry := by
  cases run_of_visit h with
  | visit hload _ _ => exact ⟨_, _, Walk.closed_note_closed _ _ _, path_of_load hload⟩

/-- Things listed file by file: those of an import come before those of the file, unless the import
leads back. -/
theorem Covers.index_lt (h : s.Covers entry w) (horder : s.ClosesInOrder w.closed) {f g : Path}
    (himport : s.Imports f g) (hback : ¬ s.Reaches g f) {α : Type}
    {block : Source × List Path → List α} {ofFile ofImport : α → Prop}
    (hfile : ∀ d ∈ w.closed, ∀ x ∈ block d, ofFile x → d.1.path = f)
    (hother : ∀ d ∈ w.closed, ∀ x ∈ block d, ofImport x → d.1.path = g) {i j : Nat} {x y : α}
    (hx : (w.closed.flatMap block)[i]? = some x) (hy : (w.closed.flatMap block)[j]? = some y)
    (hximport : ofImport x) (hyfile : ofFile y) : i < j := by
  have hne : f ≠ g := fun heq => hback (heq ▸ .refl)
  have hpaths : (w.closed.map (·.1.path)).Nodup := h.closed_perm.nodup_iff.mpr h.opened_nodup
  have hpairwise : (w.closed.flatMap block).Pairwise fun y x => ¬ (ofFile y ∧ ofImport x) := by
    refine List.pairwise_flatMap.mpr ⟨fun d hd => ?_, ?_⟩
    · refine List.pairwise_of_forall_mem_list fun y hy x hx hboth => hne ?_
      exact (hfile d hd y hy hboth.1).symm.trans (hother d hd x hx hboth.2)
    · refine (horder.pairwise hpaths).imp_of_mem fun {d e} hd he hlater y hy x hx hboth => hback ?_
      obtain rfl := hfile d hd y hy hboth.1
      obtain rfl := hother e he x hx hboth.2
      obtain ⟨source, imports, hload, himports, hmem⟩ := himport
      obtain rfl := Except.ok.inj ((h.load_closed d hd).symm.trans hload)
      obtain rfl := Except.ok.inj ((h.imports_closed d hd).symm.trans himports)
      exact hlater hmem
  obtain ⟨hi, rfl⟩ := List.getElem?_eq_some_iff.mp hx
  obtain ⟨hj, rfl⟩ := List.getElem?_eq_some_iff.mp hy
  rcases Nat.lt_trichotomy i j with hlt | rfl | hlt
  · exact hlt
  · obtain ⟨d, hd, hmem⟩ := List.mem_flatMap.mp (List.getElem_mem hi)
    exact absurd ((hfile d hd _ hmem hyfile).symm.trans (hother d hd _ hmem hximport)) hne
  · exact absurd ⟨hyfile, hximport⟩ (List.pairwise_iff_getElem.mp hpairwise j i hj hi hlt)

/-- Two walks from one entry close the same files, each in its own order. -/
theorem Covers.perm_closed (h : s.Covers entry w) (h' : s.Covers entry w') :
    w.closed.Perm w'.closed := by
  have hnodup {w : Walk} (h : s.Covers entry w) : w.closed.Nodup :=
    List.Nodup.of_map _ (h.closed_perm.nodup_iff.mpr h.opened_nodup)
  exact (List.perm_ext_iff_of_nodup (hnodup h) (hnodup h')).mpr fun d =>
    h.mem_closed.trans h'.mem_closed.symm

/-- The files before and after a closed file. Nothing is closed after the entry. -/
theorem Covers.exists_closed_eq_append (h : s.Covers entry w)
    (hlast : ∃ closed d, w.closed = closed ++ [d] ∧ d.1.path = entry) {f : Path}
    (hf : s.Reaches entry f) :
    ∃ before d after, w.closed = before ++ d :: after ∧ d.1.path = f ∧
      (∀ e ∈ before ++ after, e.1.path.render ≠ f.render) ∧ (f = entry → after = []) := by
  obtain ⟨d, hd, rfl⟩ := h.exists_mem_closed hf
  obtain ⟨before, after, hsplit⟩ := List.append_of_mem hd
  have hothers : ∀ e ∈ before ++ after, e.1.path.render ≠ d.1.path.render := by
    intro e he heq
    have hnodup := h.nodup_closed
    rw [hsplit, List.map_append, List.map_cons, List.nodup_middle, List.nodup_cons,
      ← List.map_append] at hnodup
    exact hnodup.1 (List.mem_map.mpr ⟨e, he, heq⟩)
  refine ⟨before, d, after, hsplit, rfl, hothers, fun hentry => ?_⟩
  obtain ⟨closed, last, hclosed, hpath⟩ := hlast
  rcases List.eq_nil_or_concat' after with hnil | ⟨rest, e, rfl⟩
  · exact hnil
  · have hends : closed ++ [last] = (before ++ d :: rest) ++ [e] := by
      rw [← hclosed, hsplit, List.append_assoc, List.cons_append]
    obtain rfl := List.singleton_inj.mp (List.append_inj' hends rfl).2
    exact absurd (by rw [hpath, hentry]) (hothers last (by simp))

open Extract

variable {known : KnownNames}

/-- The contracts of an import come before those of the file, unless the import leads back. -/
theorem Covers.ofWalk_index_lt (h : s.Covers entry w) (horder : s.ClosesInOrder w.closed)
    (hentry : entry.IsResolved) (hdeps : s.dependencies.IsResolved) {f g : Path}
    (hf : s.Reaches entry f) (himport : s.Imports f g) (hback : ¬ s.Reaches g f) {i j : Nat}
    {c d : Contract} (hc : (ofWalk known w)[i]? = some c) (hd : (ofWalk known w)[j]? = some d)
    (hcg : c.sourcePath = g.render) (hdf : d.sourcePath = f.render) : i < j := by
  have hpath {k : Path} (hk : s.Reaches entry k) : ∀ e ∈ w.closed,
      ∀ x ∈ contractsOf known e.1 e.2, x.sourcePath = k.render → e.1.path = k := by
    intro e he x hx hsource
    have hreach := (h.mem_closed.mp he).1
    refine Path.render_injective (Reaches.isResolved hreach hdeps hentry).plain
      (Reaches.isResolved hk hdeps hentry).plain ?_
    rw [← sourcePath_of_mem_contractsOf hx, hsource]
  exact h.index_lt horder himport hback (hpath hf) (hpath (hf.tail himport)) hc hd hcg hdf

/-- The contracts of a file stand together, as they are declared. Those of the entry are last. -/
theorem Covers.ofWalk_eq_append (h : s.Covers entry w)
    (hlast : ∃ closed d, w.closed = closed ++ [d] ∧ d.1.path = entry) {f : Path}
    (hf : s.Reaches entry f) :
    ∃ source before block after, s.load f = .ok source ∧
      ofWalk known w = before ++ block ++ after ∧
      block.map (fun c => (c.kind, c.name)) =
        source.tree.contractDeclarations.map (fun d => (d.1, d.2.declaredName)) ∧
      (∀ c ∈ block, c.sourcePath = f.render) ∧
      (∀ c ∈ before ++ after, c.sourcePath ≠ f.render) ∧ (f = entry → after = []) := by
  obtain ⟨before, d, after, hsplit, rfl, hothers, hend⟩ := h.exists_closed_eq_append hlast hf
  let contracts (ds : List (Source × List Path)) : List Contract :=
    ds.flatMap fun d => contractsOf known d.1 d.2
  refine ⟨d.1, contracts before, contractsOf known d.1 d.2, contracts after,
    h.load_closed d (by simp [hsplit]), ?_, contractsOf_map_declaration,
    fun c hc => sourcePath_of_mem_contractsOf hc, fun c hc => ?_,
    fun hf => by simp [contracts, hend hf]⟩
  · rw [ofWalk, hsplit, List.flatMap_append, List.flatMap_cons, List.append_assoc]
  · rw [← List.flatMap_append] at hc
    obtain ⟨e, he, hc⟩ := List.mem_flatMap.mp hc
    rw [sourcePath_of_mem_contractsOf hc]
    exact hothers e he

/-- The names of the contracts of a walk, file by file. -/
theorem map_declaredName_contracts (w : Walk) : w.contracts.map Node.declaredName =
    w.closed.flatMap fun d => d.1.tree.contractDeclarations.map fun c => c.2.declaredName := by
  simp only [Walk.contracts, List.map_flatMap, List.map_map, Function.comp_def]

/-- A registry that started empty has the names of the contracts, in their order. -/
theorem keys_registry {p : Profile} (hp : p.registry = [])
    (hnames : (w.contracts.map Node.declaredName).Nodup) :
    (p.ofWalk w).registry.map (·.1) = w.contracts.map Node.declaredName := by
  have hpairs : ((w.contracts.map fun c => (c.declaredName, Profile.variableTypes c)).map (·.1)) =
      w.contracts.map Node.declaredName := by
    rw [List.map_map]
    rfl
  rw [Profile.registry_ofWalk, hp, Registry.foldl_register_nil,
    OrderedMap.keys_ofPairs (hpairs ▸ hnames), hpairs]

/-- What stands in a list of distinct things stands in one block of it. -/
theorem eq_of_mem_block {α β : Type} {block : α → List β} {xs : List α}
    (h : (xs.flatMap block).Nodup) {a b : α} (ha : a ∈ xs) (hb : b ∈ xs) {x : β}
    (hxa : x ∈ block a) (hxb : x ∈ block b) : a = b := by
  by_contra hne
  have hdisjoint : xs.Pairwise fun a b => (block a).Disjoint (block b) :=
    (List.nodup_flatMap.mp h).2
  have : Std.Symm fun a b => (block a).Disjoint (block b) := ⟨fun _ _ h => h.symm⟩
  exact hdisjoint.forall ha hb hne hxa hxb

/-- Where names are distinct, the names of an import's contracts are registered before those of
the file, unless the import leads back. -/
theorem Covers.exists_registered_lt (h : s.Covers entry w) (horder : s.ClosesInOrder w.closed)
    {p : Profile} (hp : p.registry = []) (hnames : (w.contracts.map Node.declaredName).Nodup)
    {f g : Path} (hf : s.Reaches entry f) (himport : s.Imports f g) (hback : ¬ s.Reaches g f)
    {source source' : Source} (hload : s.load f = .ok source) (hload' : s.load g = .ok source')
    {c d : ContractKind × Node} (hc : c ∈ source'.tree.contractDeclarations)
    (hd : d ∈ source.tree.contractDeclarations) :
    ∃ i j : Nat, i < j ∧
      ((p.ofWalk w).registry.map (·.1))[i]? = some c.2.declaredName ∧
      ((p.ofWalk w).registry.map (·.1))[j]? = some d.2.declaredName := by
  rw [keys_registry hp hnames]
  rw [map_declaredName_contracts] at hnames ⊢
  obtain ⟨df, hdf, rfl⟩ := h.exists_mem_closed hf
  obtain ⟨dg, hdg, rfl⟩ := h.exists_mem_closed (hf.tail himport)
  obtain rfl := Except.ok.inj ((h.load_closed df hdf).symm.trans hload)
  obtain rfl := Except.ok.inj ((h.load_closed dg hdg).symm.trans hload')
  let block (d : Source × List Path) : List String :=
    d.1.tree.contractDeclarations.map fun c => c.2.declaredName
  have hin : c.2.declaredName ∈ block dg := List.mem_map_of_mem hc
  have hin' : d.2.declaredName ∈ block df := List.mem_map_of_mem hd
  obtain ⟨i, hi⟩ := List.mem_iff_getElem?.mp (List.mem_flatMap.mpr ⟨dg, hdg, hin⟩)
  obtain ⟨j, hj⟩ := List.mem_iff_getElem?.mp (List.mem_flatMap.mpr ⟨df, hdf, hin'⟩)
  have hone {e : Source × List Path} (he : e ∈ w.closed) : ∀ e' ∈ w.closed, ∀ x ∈ block e',
      x ∈ block e → e'.1.path = e.1.path := fun e' he' x hx hxe =>
    congrArg (·.1.path) (eq_of_mem_block hnames he' he hx hxe)
  exact ⟨i, j, h.index_lt horder himport hback (hone hdf) (hone hdg) hi hj hin hin', hi, hj⟩

/-- Contracts of an import come before those of the file that imports it, unless the import leads
back to the file, for whatever reasons the walk went from file to file. The contracts of one file
stand together as they are declared, and those of the entry come last. If the names of contracts
are distinct, a registry that starts empty lists them in such an order too. -/
theorem extract_lists_imports_first (ignored names : NameSet) {contracts : List Contract}
    {entered : NameSet} (hentry : entry.IsResolved) (hdeps : s.dependencies.IsResolved)
    (h : (s.extract known entry []).result = .ok (contracts, entered)) :
    let run := s.profile entry [] ⟨ignored, names, []⟩
    let registered := run.profile.registry.map (·.1)
    (∀ f g, s.Reaches entry f → s.Imports f g → ¬ s.Reaches g f → ∀ (i j : Nat) c d,
      contracts[i]? = some c → contracts[j]? = some d →
      c.sourcePath = g.render → d.sourcePath = f.render → i < j) ∧
    (∀ f, s.Reaches entry f → ∃ source before block after, s.load f = .ok source ∧
      contracts = before ++ block ++ after ∧
      block.map (fun c => (c.kind, c.name)) =
        source.tree.contractDeclarations.map (fun d => (d.1, d.2.declaredName)) ∧
      (∀ c ∈ block, c.sourcePath = f.render) ∧
      (∀ c ∈ before ++ after, c.sourcePath ≠ f.render) ∧ (f = entry → after = [])) ∧
    run.failure = none ∧
    ((contracts.map (·.name)).Nodup → registered.Nodup ∧
      ∀ f g source source', s.Reaches entry f → s.Imports f g → ¬ s.Reaches g f →
        s.load f = .ok source → s.load g = .ok source' →
        ∀ c ∈ source'.tree.contractDeclarations, ∀ d ∈ source.tree.contractDeclarations,
          ∃ i j : Nat, i < j ∧ registered[i]? = some c.2.declaredName ∧
            registered[j]? = some d.2.declaredName) := by
  intro run registered
  obtain ⟨we, hwe⟩ := exists_extract_iff.mp ⟨_, h⟩
  obtain ⟨wp, hwp⟩ := (exists_profile_walk_iff hentry hdeps).mpr ⟨we, hwe⟩
  have hcovers := walk_covers order_isCovering hentry hdeps hwe
  have horder := walk_closesInOrder order_isCovering hentry hdeps hwe
  have hprofile := walk_covers Profile.order_isCovering hentry hdeps hwp
  have hporder := walk_closesInOrder Profile.order_isCovering hentry hdeps hwp
  have hrun : run = ⟨wp.visited, Profile.ofWalk ⟨ignored, names, []⟩ wp, _, none⟩ :=
    profile_of_walk hwp _
  rw [extract_of_walk hwe] at h
  obtain ⟨rfl, rfl⟩ := Prod.mk.inj (Except.ok.inj h)
  refine ⟨?_, fun f hf => hcovers.ofWalk_eq_append (walk_closed_eq_concat hwe) hf, ?_, ?_⟩
  · intro f g hf himport hback i j c d hc hd
    exact hcovers.ofWalk_index_lt horder hentry hdeps hf himport hback hc hd
  · rw [hrun]
  · intro hnames
    -- Both passes close the same files, so the names are distinct in either order.
    have hdistinct : (wp.contracts.map Node.declaredName).Nodup := by
      rw [map_name_ofWalk] at hnames
      have hperm : wp.contracts.Perm we.contracts := (hprofile.perm_closed hcovers).flatMap_right _
      exact (hperm.map _).nodup_iff.mpr hnames
    have hregistered : registered = (Profile.ofWalk ⟨ignored, names, []⟩ wp).registry.map (·.1) :=
      congrArg (·.profile.registry.map (·.1)) hrun
    rw [hregistered]
    refine ⟨?_, fun f g source source' hf himport hback hload hload' c hc d hd => ?_⟩
    · rw [keys_registry rfl hdistinct]
      exact hdistinct
    · exact hprofile.exists_registered_lt hporder rfl hdistinct hf himport hback hload hload' hc hd

/-- A file that imports two others. It is followed to the second first, by a base constructor call;
the first imports it in turn. -/
def baseCallFirst : Sources where
  host :=
    { files :=
        { entries :=
            [(["C.sol"], sampleFile ["./E.sol", "./A.sol"] "C"
                [sampleNode "constructor_definition" none ""
                  [sampleNode "modifier_invocation" none "A(1)" []]]),
              (["E.sol"], sampleFile ["./C.sol"] "E" []), (["A.sol"], sampleFile [] "A" [])]
          distinct := by decide }
      workingDirectory := []
      home := Path.absolute []
      accounts := [] }
  dependencies := Path.absolute ["lib"]
  tolerant := false

/-- What two of the files import. -/
theorem imports_baseCallFirst (file : Path) (imports : List Path)
    (h : (file, imports) ∈ [(Path.absolute ["C.sol"],
      [Path.absolute ["E.sol"], Path.absolute ["A.sol"]]), (Path.absolute ["A.sol"], [])]) :
    ∃ source, baseCallFirst.load file = .ok source ∧
      baseCallFirst.imports source = .ok imports := by
  have hboth : ((baseCallFirst.load file).toOption.bind fun source =>
      (baseCallFirst.imports source).toOption) = some imports := by
    rcases List.mem_pair.mp h with h | h
    · obtain ⟨rfl, rfl⟩ := Prod.mk.inj h
      cbv
    · obtain ⟨rfl, rfl⟩ := Prod.mk.inj h
      cbv
  obtain ⟨source, hload, himports⟩ := Option.bind_eq_some_iff.mp hboth
  exact ⟨source, Outcome.eq_ok_of_toOption hload, Outcome.eq_ok_of_toOption himports⟩

theorem not_reaches_baseCallFirst :
    ¬ baseCallFirst.Reaches (Path.absolute ["A.sol"]) (Path.absolute ["C.sol"]) := by
  intro hreach
  rcases Relation.ReflTransGen.cases_head hreach with heq | ⟨target, himport, _⟩
  · exact absurd heq (by decide)
  · obtain ⟨source, hload, himports⟩ :=
      imports_baseCallFirst (Path.absolute ["A.sol"]) [] (by simp)
    obtain ⟨source', imports, hload', himports', hmem⟩ := himport
    obtain rfl := Except.ok.inj (hload.symm.trans hload')
    obtain rfl := Except.ok.inj (himports.symm.trans himports')
    cases hmem

theorem contracts_before_baseCallFirst :
    (Path.absolute ["C.sol"]).IsResolved ∧ baseCallFirst.dependencies.IsResolved ∧
      ∃ contracts entered,
        (baseCallFirst.extract ⟨[], []⟩ (Path.absolute ["C.sol"]) []).result =
          .ok (contracts, entered) ∧
        ∀ (i j : Nat) c d, contracts[i]? = some c → contracts[j]? = some d →
          c.sourcePath = (Path.absolute ["A.sol"]).render →
          d.sourcePath = (Path.absolute ["C.sol"]).render → i < j := by
  have hentry : (Path.absolute ["C.sol"]).IsResolved := ⟨rfl, by decide⟩
  have hdeps : baseCallFirst.dependencies.IsResolved := ⟨rfl, by decide⟩
  have hprofile : ∃ w, baseCallFirst.walk Profile.order (Path.absolute ["C.sol"]) [] = .ok w := by
    have hbound : baseCallFirst.bound = 17 := by cbv
    rw [walk, hbound]
    apply Outcome.exists_of_isSome
    cbv
  have hends : ∃ r, (baseCallFirst.extract ⟨[], []⟩ (Path.absolute ["C.sol"]) []).result = .ok r :=
    exists_extract_iff.mpr ((exists_profile_walk_iff hentry hdeps).mp hprofile)
  obtain ⟨⟨contracts, entered⟩, hextract⟩ := hends
  obtain ⟨source, hload, himports⟩ :=
    imports_baseCallFirst (Path.absolute ["C.sol"]) _ List.mem_cons_self
  refine ⟨hentry, hdeps, contracts, entered, hextract, ?_⟩
  exact (extract_lists_imports_first [] [] hentry hdeps hextract).1 _ _ .refl
    ⟨source, _, hload, himports, by simp⟩ not_reaches_baseCallFirst

end Sources
end SolidityCalls
