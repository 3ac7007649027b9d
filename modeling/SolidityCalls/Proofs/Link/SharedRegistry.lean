import SolidityCalls.Proofs.Data.OrderedMap
import SolidityCalls.Proofs.Link.Callees
import SolidityCalls.Proofs.Link.Isolation

/-! What the shared registry holds when calls are resolved. Contracts are registered under their
names, so of the contracts that have one name, in whatever entries, the one profiled last stands
for all of them. A variable has a type exactly when such a last contract declares it. -/
namespace SolidityCalls

namespace Profile

/-- The contract, or something in it, declares a variable of this name. -/
def Declares (contract : Node) (variableName : String) : Prop :=
  variableName ∈ contract.namesDeclared variableKinds

theorem isSome_variableTypes {c : Node} {v : String} :
    ((variableTypes c).get? v).isSome ↔ Declares c v := by
  rw [variableTypes, OrderedMap.get?_ofPairs, OrderedMap.isSome_get?, List.map_reverse,
    List.mem_reverse, Declares, Node.namesDeclared, List.filter_map, List.filter_map, List.map_map]
  rfl

/-- A type that is found is the declared type of a variable of that name. -/
theorem exists_declaration_of_variableTypes {c : Node} {v type : String}
    (h : (variableTypes c).get? v = some type) :
    ∃ d ∈ c.ofKinds variableKinds, d.declaredName = v ∧ d.declaredType = type := by
  rw [variableTypes, OrderedMap.get?_ofPairs] at h
  have hmem := List.mem_reverse.mp (OrderedMap.mem_of_get? h)
  obtain ⟨d, hd, heq⟩ := List.mem_map.mp (List.mem_filter.mp hmem).1
  obtain ⟨hname, htype⟩ := Prod.mk.inj heq
  exact ⟨d, hd, hname, htype⟩

end Profile

namespace Registry
open Profile Extract

/-- A contract with its variables, in place of any earlier contract of its name. -/
def register (r : Registry) (contract : Node) : Registry :=
  r.put contract.declaredName (variableTypes contract)

theorem foldl_register_nil (cs : List Node) :
    cs.foldl register [] =
      OrderedMap.ofPairs (cs.map fun c => (c.declaredName, variableTypes c)) := by
  rw [OrderedMap.ofPairs, List.foldl_map]
  rfl

theorem get?_map_declaredName (cs : List Node) (name : String) :
    OrderedMap.get? (cs.map fun c => (c.declaredName, variableTypes c)) name =
      (cs.find? fun c => c.declaredName = name).map variableTypes := by
  induction cs with
  | nil => rfl
  | cons c cs ih =>
    rw [List.map_cons, OrderedMap.get?_cons, ih, List.find?_cons]
    by_cases hname : c.declaredName = name
    · simp [hname]
    · simp [hname, Ne.symm hname]

theorem exists_lastNamed {cs : List Node} {c : Node} (h : c ∈ cs) :
    ∃ d, lastNamed cs c.declaredName = some d :=
  Option.isSome_iff_exists.mp
    (List.find?_isSome.mpr ⟨c, List.mem_reverse.mpr h, decide_eq_true rfl⟩)

/-- The registry holds, for each name, the contract registered last. -/
theorem mem_foldl_register {cs : List Node} {e : String × OrderedMap String} :
    e ∈ cs.foldl register [] ↔ ∃ c, lastNamed cs e.1 = some c ∧ variableTypes c = e.2 := by
  rw [foldl_register_nil, OrderedMap.mem_ofPairs, ← List.map_reverse, get?_map_declaredName,
    Option.map_eq_some_iff]
  rfl

/-- A variable has a type when a contract that is the last of its name declares it. -/
theorem isSome_typeOf?_iff {cs : List Node} {v : String} :
    ((cs.foldl register []).typeOf? v).isSome ↔
      ∃ c ∈ cs, lastNamed cs c.declaredName = some c ∧ Declares c v := by
  rw [typeOf?, List.isSome_findSome?, List.any_eq_true]
  constructor
  · rintro ⟨e, he, hsome⟩
    obtain ⟨c, hlast, htypes⟩ := mem_foldl_register.mp he
    obtain ⟨hmem, hname⟩ := mem_of_lastNamed hlast
    exact ⟨c, hmem, hname ▸ hlast, isSome_variableTypes.mp (htypes ▸ hsome)⟩
  · rintro ⟨c, _, hlast, hdeclares⟩
    exact ⟨(c.declaredName, variableTypes c), mem_foldl_register.mpr ⟨c, hlast, rfl⟩,
      isSome_variableTypes.mpr hdeclares⟩

/-- The type of a variable is one that some contract declares for it. -/
theorem exists_declaration_of_typeOf? {cs : List Node} {v type : String}
    (h : (cs.foldl register []).typeOf? v = some type) :
    ∃ c ∈ cs, ∃ d ∈ c.ofKinds variableKinds, d.declaredName = v ∧ d.declaredType = type := by
  obtain ⟨e, he, hget⟩ := List.exists_of_findSome?_eq_some h
  obtain ⟨c, hlast, htypes⟩ := mem_foldl_register.mp he
  exact ⟨c, (mem_of_lastNamed hlast).1, exists_declaration_of_variableTypes (htypes ▸ hget)⟩

end Registry

/-- The contracts of the files closed by a walk. -/
def Walk.contracts (w : Walk) : List Node :=
  w.closed.flatMap fun d => d.1.tree.contractDeclarations.map (·.2)

namespace Profile

theorem registry_foldl (ds : List (ContractKind × Node)) (p : Profile) :
    (ds.foldl (fun p c => p.addContract c.2) p).registry =
      (ds.map (·.2)).foldl Registry.register p.registry := by
  induction ds generalizing p with
  | nil => rfl
  | cons d ds ih => exact ih (p.addContract d.2)

theorem registry_ofWalk (p : Profile) (w : Walk) :
    (p.ofWalk w).registry = w.contracts.foldl Registry.register p.registry := by
  unfold ofWalk Walk.contracts
  induction w.closed generalizing p with
  | nil => rfl
  | cons d ds ih =>
    rw [List.foldl_cons, ih, List.flatMap_cons, List.foldl_append]
    congr 1
    exact registry_foldl _ _

end Profile

theorem Extract.map_name_ofWalk (known : KnownNames) (w : Walk) :
    (ofWalk known w).map (·.name) = w.contracts.map Node.declaredName := by
  simp only [ofWalk, Walk.contracts, List.map_flatMap, List.map_map]
  refine List.flatMap_congr fun d _ => ?_
  simp [contractsOf]

namespace Sources

/-- The contracts profiled for an entry file, in order. -/
def profiledContracts (s : Sources) (file : Path) : List Node :=
  match s.walk Profile.order file [] with
  | .ok w => w.contracts
  | .error _ => []

/-- The contracts profiled for a file are those declared in the files that it leads to. -/
theorem mem_profiledContracts {s : Sources} {file : Path} (hfile : file.IsResolved)
    (hdeps : s.dependencies.IsResolved) {w : Walk} (hw : s.walk Profile.order file [] = .ok w)
    {c : Node} :
    c ∈ s.profiledContracts file ↔ ∃ f source, s.Reaches file f ∧ s.load f = .ok source ∧
      c ∈ source.tree.contractDeclarations.map (·.2) := by
  have hcovers := walk_covers Profile.order_isCovering hfile hdeps hw
  simp only [profiledContracts, hw, Walk.contracts, List.mem_flatMap]
  constructor
  · rintro ⟨d, hd, hc⟩
    obtain ⟨hreach, hload, _⟩ := hcovers.mem_closed.mp hd
    exact ⟨d.1.path, d.1, hreach, hload, hc⟩
  · rintro ⟨f, source, hreach, hload, hc⟩
    obtain ⟨d, hd, rfl⟩ := hcovers.exists_mem_closed hreach
    obtain rfl := Except.ok.inj (hload.symm.trans (hcovers.load_closed d hd))
    exact ⟨d, hd, hc⟩

end Sources

namespace Universe
open Sources Profile Extract Registry

theorem exists_profile_walk_of_ofEntry {s : Sources} {entry : Path} {u : Universe}
    (h : ofEntry s entry = .ok u) : ∃ w, s.walk Profile.order u.entryFile [] = .ok w := by
  obtain ⟨_, w, _, _, hw, _⟩ := exists_walks_of_ofEntry h
  exact ⟨w, hw⟩

theorem registry_add {s : Sources} {u : Universe} {w : Walk}
    (hw : s.walk Profile.order u.entryFile [] = .ok w) (g : Gathered) :
    (g.add s u).registry =
      (s.profiledContracts u.entryFile).foldl register g.registry := by
  simp only [Gathered.add, profile_of_walk hw, registry_ofWalk, profiledContracts, hw]

/-- What is gathered from entries that succeed alone. -/
theorem foldlM_gather_of_forall₂ {s : Sources} {entries : List Path} {us : List Universe}
    (h : List.Forall₂ (fun entry u => ofEntry s entry = .ok u) entries us) (g : Gathered) :
    (entries.foldlM (gather s) g).result =
      .ok ⟨g.universes ++ us,
        (us.flatMap fun u => s.profiledContracts u.entryFile).foldl register
          g.registry⟩ := by
  rw [Logged.result_foldlM]
  induction h generalizing g with
  | nil => simp; rfl
  | @cons entry u entries us hu _ ih =>
    obtain ⟨w, hw⟩ := exists_profile_walk_of_ofEntry hu
    rw [List.foldlM_cons, result_gather, hu]
    refine (ih (g.add s u)).trans ?_
    rw [registry_add hw, List.flatMap_cons, List.foldl_append, Gathered.add, List.append_assoc,
      List.singleton_append]

theorem exists_of_forall₂_right {α β : Type} {R : α → β → Prop} {xs : List α} {ys : List β}
    (h : List.Forall₂ R xs ys) {y : β} (hy : y ∈ ys) : ∃ x ∈ xs, R x y := by
  obtain ⟨i, hi, rfl⟩ := List.getElem_of_mem hy
  have hi' : i < xs.length := h.length_eq ▸ hi
  exact ⟨xs[i], List.getElem_mem hi', h.get hi' hi⟩

/-- The universes are resolved with the registry gathered from all entries. It is made of the
contracts declared in the files that the entries lead to, and a variable has a type in it exactly
when a contract that was profiled last under its name declares the variable. So a variable of a
contract is lost only if a later contract of the same name does not declare it; any other one
gives an argument of its name a segment with a type declared for it. -/
theorem build_type_isSome_iff_declared_last {host : Host} {dependencies : Path} {tolerant : Bool}
    {entries : List Path} {universes : List Universe}
    (hbuild : (build host dependencies tolerant entries).result = .ok universes)
    (hentries : ∀ entry ∈ entries, entry.IsPlain) (hdeps : dependencies.IsPlain)
    (hdirectory : ∀ c ∈ host.workingDirectory, IsComponent c) :
    ∃ root us registry, host.resolve dependencies = .ok root ∧
      (entries.foldlM (gather ⟨host, root, tolerant⟩) ⟨[], []⟩).result = .ok ⟨us, registry⟩ ∧
      universes = us.map (resolve registry) ∧
      List.Forall₂ (fun entry u => host.resolve entry = .ok u.entryFile) entries universes ∧
      let s : Sources := ⟨host, root, tolerant⟩
      let profiled := universes.flatMap fun u => s.profiledContracts u.entryFile
      (∀ c, c ∈ profiled ↔ ∃ u ∈ universes, ∃ f source, s.Reaches u.entryFile f ∧
        s.load f = .ok source ∧ c ∈ source.tree.contractDeclarations.map (·.2)) ∧
      (∀ v, (registry.typeOf? v).isSome ↔
        ∃ c ∈ profiled, lastNamed profiled c.declaredName = some c ∧ Declares c v) ∧
      ∀ c ∈ profiled, ∀ v, Declares c v →
        (∀ d, lastNamed profiled c.declaredName = some d → Declares d v) →
        ∃ type, registry.typeOf? v = some type ∧
          (∃ d ∈ profiled, ∃ n ∈ d.ofKinds variableKinds,
            n.declaredName = v ∧ n.declaredType = type) ∧
          ∀ a : Argument, a.kind = .identifier → a.text = v →
            Call.segment? registry a = some type := by
  simp only [build, Logged.result_bind, Logged.result_ofExcept] at hbuild
  obtain ⟨root, hroot, hbuild⟩ := Outcome.exists_of_bind_ok hbuild
  obtain ⟨⟨us, registry⟩, hfold, hend⟩ := Outcome.exists_of_bind_ok hbuild
  obtain rfl := Except.ok.inj hend
  obtain ⟨us', hus, hall⟩ := forall₂_of_foldlM hfold
  obtain rfl : us = us' := hus.trans (List.nil_append _)
  have hregistry :
      registry = (us.flatMap fun u => profiledContracts ⟨host, root, tolerant⟩ u.entryFile).foldl
        register [] :=
    congrArg Gathered.registry
      (Except.ok.inj (hfold.symm.trans (foldlM_gather_of_forall₂ hall ⟨[], []⟩)))
  have hroot' : root.IsResolved := host.resolve_isResolved hdeps (.inr hdirectory) hroot
  refine ⟨root, us, registry, hroot, hfold, rfl, ?_, ?_⟩
  · exact List.forall₂_map_right_iff.mpr (hall.imp fun _ _ => entryFile_of_ofEntry)
  · intro s profiled
    have hprofiled : profiled = us.flatMap fun u => s.profiledContracts u.entryFile :=
      List.flatMap_map _ _ _
    have hfound : ∀ v, registry.typeOf? v = (profiled.foldl register []).typeOf? v := by
      intro v
      rw [hprofiled, ← hregistry]
    refine ⟨fun c => ?_, fun v => hfound v ▸ isSome_typeOf?_iff, ?_⟩
    · rw [hprofiled, List.mem_flatMap]
      simp only [List.mem_map (f := resolve registry), exists_exists_and_eq_and]
      refine exists_congr fun u => and_congr_right fun hu => ?_
      obtain ⟨entry, hentry, hone⟩ := exists_of_forall₂_right hall hu
      obtain ⟨w, hw⟩ := exists_profile_walk_of_ofEntry hone
      have hfile : u.entryFile.IsResolved := host.resolve_isResolved (hentries entry hentry)
        (.inr hdirectory) (entryFile_of_ofEntry hone)
      exact mem_profiledContracts hfile hroot' hw
    · intro c hc v _ hlast
      obtain ⟨d, hd⟩ := exists_lastNamed hc
      obtain ⟨hmem, hname⟩ := mem_of_lastNamed hd
      have hsome : ((profiled.foldl register []).typeOf? v).isSome :=
        isSome_typeOf?_iff.mpr ⟨d, hmem, hname ▸ hd, hlast d hd⟩
      obtain ⟨type, htype⟩ := Option.isSome_iff_exists.mp hsome
      refine ⟨type, (hfound v).trans htype, exists_declaration_of_typeOf? htype, ?_⟩
      rintro ⟨kind, text, member⟩ rfl rfl
      rw [Call.segment?, hfound, htype, Option.getD_some]

/-- Two files with a contract of one name. The first contract declares a variable and passes it to
a function; the second contract is empty. -/
def sameName : Host where
  files :=
    { entries :=
        [(["a.sol"], sampleFile [] "A"
            [sampleNode "state_variable_declaration" none ""
              [sampleNode "type_name" (some .type) "uint256" [],
                sampleNode "identifier" (some .name) "x" []],
              sampleNode "function_definition" none ""
                [sampleNode "identifier" (some .name) "f" [],
                  sampleNode "function_body" (some .body) ""
                    [sampleNode "call_expression" none ""
                      [sampleNode "identifier" (some .function) "g" [],
                        sampleNode "identifier" none "x" []]]],
              sampleNode "function_definition" none ""
                [sampleNode "identifier" (some .name) "g" []]]),
          (["b.sol"], sampleFile [] "A" [])]
      distinct := by decide }
  workingDirectory := []
  home := Path.absolute []
  accounts := []

/-- The sources of these two files. -/
def sameNameSources : Sources := ⟨sameName, Path.absolute ["lib"], false⟩

theorem profiled_sameName :
    (sameNameSources.profiledContracts (Path.absolute ["a.sol"])).map
        (fun c => (c.declaredName, c.namesDeclared variableKinds)) = [("A", ["x"])] ∧
      (sameNameSources.profiledContracts (Path.absolute ["b.sol"])).map
        (fun c => (c.declaredName, c.namesDeclared variableKinds)) = [("A", [])] :=
  ⟨by cbv, by cbv⟩

theorem exists_ofEntry_sameName {entry : Path}
    (h : entry ∈ [Path.absolute ["a.sol"], Path.absolute ["b.sol"]]) :
    ∃ u, ofEntry sameNameSources entry = .ok u ∧ u.entryFile = entry ∧
      u.contracts.map (·.name) = ["A"] := by
  have hends : sameName.resolve entry = .ok entry ∧
      (sameNameSources.walk Profile.order entry []).toOption.isSome ∧
      (sameNameSources.walk Extract.order entry []).toOption.map
        (fun w => w.contracts.map Node.declaredName) = some ["A"] := by
    rcases List.mem_pair.mp h with rfl | rfl
    · exact ⟨by cbv, by cbv, by cbv⟩
    · exact ⟨by cbv, by cbv, by cbv⟩
  obtain ⟨hresolve, hprofile, hextract⟩ := hends
  obtain ⟨wp, hp⟩ := Outcome.exists_of_isSome hprofile
  obtain ⟨we, he, hnames⟩ := Option.map_eq_some_iff.mp hextract
  refine ⟨_, ofEntry_of_walk hresolve hp (Outcome.eq_ok_of_toOption he), rfl, ?_⟩
  rw [map_name_ofWalk, hnames]

/-- Both files stand alone; the contract of the first declares the variable, the other does not. -/
theorem ofEntry_sameName :
    ∃ first second : Universe, first.contracts.map (·.name) = ["A"] ∧
      second.contracts.map (·.name) = ["A"] ∧ ∃ c d : Node, c.declaredName = "A" ∧
        Declares c "x" ∧ d.declaredName = "A" ∧ ¬ Declares d "x" ∧
        sameNameSources.profiledContracts first.entryFile = [c] ∧
        sameNameSources.profiledContracts second.entryFile = [d] ∧
        ofEntry sameNameSources (Path.absolute ["a.sol"]) = .ok first ∧
        ofEntry sameNameSources (Path.absolute ["b.sol"]) = .ok second := by
  obtain ⟨first, hfirst, hfile, hnames⟩ := exists_ofEntry_sameName List.mem_cons_self
  obtain ⟨second, hsecond, hfile', hnames'⟩ :=
    exists_ofEntry_sameName (List.mem_cons_of_mem _ List.mem_cons_self)
  obtain ⟨c, hc, hcname⟩ := List.map_eq_singleton_iff.mp profiled_sameName.1
  obtain ⟨d, hd, hdname⟩ := List.map_eq_singleton_iff.mp profiled_sameName.2
  obtain ⟨hcname, hcvars⟩ := Prod.mk.inj hcname
  obtain ⟨hdname, hdvars⟩ := Prod.mk.inj hdname
  exact ⟨first, second, hnames, hnames', c, d, hcname, by simp [Declares, hcvars], hdname,
    by simp [Declares, hdvars], hfile ▸ hc, hfile' ▸ hd, hfirst, hsecond⟩

/-- The second file comes first, so the contract with the variable is the last of its name. -/
theorem type_isSome_of_declared_last :
    ∃ universes, (build sameName (Path.absolute ["lib"]) false
        [Path.absolute ["b.sol"], Path.absolute ["a.sol"]]).result = .ok universes ∧
      ∃ us registry, ([Path.absolute ["b.sol"], Path.absolute ["a.sol"]].foldlM
        (gather sameNameSources) ⟨[], []⟩).result = .ok ⟨us, registry⟩ ∧
        universes = us.map (resolve registry) ∧ (registry.typeOf? "x").isSome := by
  have hroot : sameName.resolve (Path.absolute ["lib"]) = .ok (Path.absolute ["lib"]) := by cbv
  obtain ⟨first, second, _, _, c, d, hcname, hcvars, hdname, hdvars, hc, hd, hfirst, hsecond⟩ :=
    ofEntry_sameName
  have hgather := foldlM_gather_of_forall₂ (.cons hsecond (.cons hfirst .nil)) ⟨[], []⟩
  obtain ⟨universes, hbuild⟩ : ∃ universes, (build sameName (Path.absolute ["lib"]) false
      [Path.absolute ["b.sol"], Path.absolute ["a.sol"]]).result = .ok universes :=
    exists_build hroot (List.forall_mem_cons.mpr
      ⟨⟨second, hsecond⟩, List.forall_mem_singleton.mpr ⟨first, hfirst⟩⟩)
  obtain ⟨root, us, registry, hroot', hfold, huniverses, _, _, hsome, _⟩ :=
    build_type_isSome_iff_declared_last hbuild (by decide) (by decide) (by decide)
  obtain rfl := Except.ok.inj (hroot.symm.trans hroot')
  obtain rfl : us = [second, first] :=
    congrArg Gathered.universes (Except.ok.inj (hfold.symm.trans hgather))
  refine ⟨universes, hbuild, _, registry, hfold, huniverses, (hsome "x").mpr ?_⟩
  have hprofiled : (universes.flatMap fun u =>
      profiledContracts ⟨sameName, Path.absolute ["lib"], false⟩ u.entryFile) = [d, c] := by
    rw [huniverses, List.map_cons, List.map_singleton, List.flatMap_cons, List.flatMap_singleton]
    exact congrArg₂ (· ++ ·) hd hc
  rw [hprofiled]
  exact ⟨c, List.mem_cons_of_mem _ List.mem_cons_self, by simp [lastNamed], hcvars⟩

/-- Each universe has one contract, and yet the variable that the first contract declares has no
type when calls are resolved: the second file has put another contract in its place. -/
theorem declared_variable_without_type :
    ∃ us registry, ([Path.absolute ["a.sol"], Path.absolute ["b.sol"]].foldlM
        (gather sameNameSources) ⟨[], []⟩).result = .ok ⟨us, registry⟩ ∧
      (build sameName (Path.absolute ["lib"]) false
        [Path.absolute ["a.sol"], Path.absolute ["b.sol"]]).result =
          .ok (us.map (resolve registry)) ∧
      (∀ u ∈ us, (u.contracts.map (·.name)).Nodup) ∧
      ∃ u ∈ us, ∃ f source, sameNameSources.Reaches u.entryFile f ∧
        sameNameSources.load f = .ok source ∧
        ∃ c ∈ source.tree.contractDeclarations.map (·.2), Declares c "x" ∧
          registry.typeOf? "x" = none := by
  have hroot : sameName.resolve (Path.absolute ["lib"]) = .ok (Path.absolute ["lib"]) := by cbv
  obtain ⟨first, second, hnames, hnames', c, d, hcname, hcvars, hdname, hdvars, hc, hd, hfirst,
    hsecond⟩ := ofEntry_sameName
  have hgather := foldlM_gather_of_forall₂ (.cons hfirst (.cons hsecond .nil)) ⟨[], []⟩
  refine ⟨_, _, hgather, ?_, ?_, first, List.mem_cons_self, ?_⟩
  · rw [build, Logged.result_bind, Logged.result_ofExcept, hroot, Outcome.ok_bind,
      Logged.result_bind]
    exact congrArg (· >>= _) hgather
  · simp [hnames, hnames']
  · obtain ⟨w, hw⟩ := exists_profile_walk_of_ofEntry hfirst
    have hfile : first.entryFile.IsResolved := sameName.resolve_isResolved (by decide)
      (.inl rfl) (entryFile_of_ofEntry hfirst)
    obtain ⟨f, source, hreach, hload, hmem⟩ :=
      (mem_profiledContracts hfile ⟨rfl, by decide⟩ hw).mp (hc ▸ List.mem_singleton_self c)
    refine ⟨f, source, hreach, hload, c, hmem, hcvars, ?_⟩
    have hprofiled : ([first, second].flatMap fun u =>
        sameNameSources.profiledContracts u.entryFile) = [c, d] := by
      rw [List.flatMap_cons, List.flatMap_singleton, hc, hd, List.singleton_append]
    rw [hprofiled, ← Option.not_isSome_iff_eq_none, isSome_typeOf?_iff]
    rintro ⟨e, he, hlast, hvars⟩
    have hlastOf : lastNamed [c, d] "A" = some d := by simp [lastNamed, hdname]
    rcases List.mem_pair.mp he with rfl | rfl
    · rw [hcname, hlastOf] at hlast
      exact hdvars (Option.some.inj hlast ▸ hvars)
    · exact hdvars hvars

end Universe
end SolidityCalls
