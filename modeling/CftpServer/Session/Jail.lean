import CftpServer.Session.Store

/-!
# Calls from a jail

A process whose root directory is `home` and which works below it is `Homed`.

* `upshot_inside`, `upshot_congr`: what a call comes to is inside the home, and is a matter of what is there
* `after_keeps`: so what the process does changes nothing outside, and does the same in a system that is the same inside
  and has the same names of users and groups
* `outcomes_congr`: the calls have the same outcomes there
-/

namespace CftpServer

open CLib FileTree

/-- The process has its root at `home`, and works below it. -/
structure Homed (home : List Name) (p : Proc) : Prop where
  root : placeOf p.root = home
  cwd : home <+: placeOf p.cwd

/-- The number of the file that is open. -/
def Handle.file? : Handle → Option Nat
  | .directory => none
  | .reading i | .writing i _ => some i

/-! ## Paths from the home -/

section Paths

variable {home : List Name} {p : Proc} {t t' : Disk} {follow : Bool} {path : Bytes} {l : List Name}

theorem Homed.startOf (h : Homed home p) (path : Bytes) : home <+: startOf p path := by
  unfold CftpServer.startOf
  split
  · rw [h.root]
  · exact h.cwd

theorem Homed.dir (h : Homed home p) (ht : Takes t p path) : t.node home = some .dir := h.root ▸ ht.2.2.1

theorem resolve_inside (h : Homed home p) (hl : resolve t p follow path = some l) : home <+: l := by
  obtain ⟨-, hleads⟩ := resolve_eq_some_iff.mp hl
  rw [h.root] at hleads
  exact hleads.inside (h.startOf path)

theorem entryOf_inside (h : Homed home p) (hl : entryOf t p path = some l) : home <+: l := by
  obtain ⟨-, hleads⟩ := entryOf_eq_some_iff.mp hl
  rw [h.root] at hleads
  exact hleads.inside (h.startOf path)

section Congr

variable (h : Homed home p) (ht : t'.below home = t.below home)
include h ht

theorem takes_congr (path : Bytes) : Takes t' p path ↔ Takes t p path := by
  rw [Takes, Takes, h.root, Tree.node_congr ht (List.prefix_refl _), Tree.node_congr ht (h.startOf path)]

theorem resolve_congr (follow : Bool) (path : Bytes) : resolve t' p follow path = resolve t p follow path := by
  rw [resolve, resolve, h.root, walk_congr ht (h.startOf path)]
  exact if_congr (takes_congr h ht path) rfl rfl

theorem entryOf_congr (path : Bytes) : entryOf t' p path = entryOf t p path := by
  rw [entryOf, entryOf, h.root, walk_congr ht (h.startOf path)]
  exact if_congr (takes_congr h ht path) rfl rfl

theorem unlinks_congr (path : Bytes) : unlinks t' p path = unlinks t p path := by
  ext l
  rw [unlinks_eq_some_iff, unlinks_eq_some_iff, resolve_congr h ht]
  refine and_congr_right fun hl => ?_
  rw [Tree.node_congr ht (resolve_inside h hl)]

theorem rmdirs_congr (path : Bytes) : rmdirs t' p path = rmdirs t p path := by
  ext l
  rw [rmdirs_eq_some_iff, rmdirs_eq_some_iff, entryOf_congr h ht]
  refine and_congr_right fun _ => and_congr_right fun hl => ?_
  rw [Tree.node_congr ht (entryOf_inside h hl), Tree.names_congr ht (entryOf_inside h hl)]

end Congr

end Paths

/-! ## What calls come to, from the home -/

namespace System

variable {home : List Name} {K : Set Nat} {p : Proc} {w w' : System} {path : Bytes} {l : List Name} {c : Call}

/-- The files below the home are known, and those that are open. -/
structure Within (home : List Name) (K : Set Nat) (w : System) : Prop where
  files : FileStore.Within home K w.files
  handles : ∀ fd h i, w.handles fd = some h → h.file? = some i → i ∈ K
  opening : ∀ h i, w.opening = some h → h.file? = some i → i ∈ K

/-- The systems are the same as far as the home goes and the known files, and the names of users and groups. -/
structure Same (home : List Name) (K : Set Nat) (w w' : System) : Prop where
  files : FileStore.SameBelow home K w.files w'.files
  handles : w'.handles = w.handles
  opening : w'.opening = w.opening
  stranded : w'.stranded = w.stranded
  ticks : w'.ticks = w.ticks
  names : ∀ l ∈ nameFiles, ¬ home <+: l → FileStore.SameAt K w.files w'.files l

theorem Same.refl : Same home K w w :=
  ⟨⟨rfl, fun _ _ _ => rfl, fun _ _ => rfl, rfl⟩, rfl, rfl, rfl, rfl, fun _ _ _ => .refl⟩

/-- With fewer files known less is the same. -/
theorem Same.mono {K' : Set Nat} (h : Same home K w w') (hK : K' ⊆ K) : Same home K' w w' :=
  ⟨⟨h.files.tree, h.files.number, fun i hi => h.files.contents i (hK hi), h.files.next⟩, h.handles, h.opening,
    h.stranded, h.ticks, fun l hl hout => (h.names l hl hout).mono hK⟩

theorem Same.moment (hs : Same home K w w') : w'.moment = w.moment := by rw [System.moment, System.moment, hs.ticks]

/-- The parent process finds the same. -/
theorem Same.lookup (hs : Same home K w w') (hw : Within home K w) (hl : l ∈ nameFiles) :
    w'.lookup l = w.lookup l := by
  have htext : w'.files.text l = w.files.text l := by
    by_cases hin : home <+: l
    · exact hs.files.text hw.files hin
    · exact (hs.names l hl hin).text
  rw [System.lookup, System.lookup, hs.ticks, htext]

/-! ### The way of a path -/

/-- From below the root it does not get out, also when it begins in a removed directory. -/
theorem climb_homed (hroot : placeOf p.root = home) : ∀ {cs : List Bytes} {gone : Nat} {cur : List Name}, home <+: cur →
    (∀ q rest, climb p gone cur cs = .goesOn q rest → Homed home q) ∧
      ∀ n place, climb p gone cur cs = .ends n place → home <+: place := by
  have hout : ∀ {cur : List Name} {cs : List Bytes}, home <+: cur →
      (∀ q rest, climb p 0 cur cs = .goesOn q rest → Homed home q) ∧
        ∀ n place, climb p 0 cur cs = .ends n place → home <+: place := by
    intro cur cs hcur
    refine ⟨fun q rest h => ?_, fun n place h => (by cases cs <;> cases h)⟩
    have hq : q = { p with cwd := pathOf cur } := by cases cs <;> (cases h; rfl)
    exact ⟨hq ▸ hroot, by rw [hq, placeOf_pathOf]; exact hcur⟩
  intro cs
  induction cs with
  | nil =>
    intro gone cur hcur
    cases gone with
    | zero => exact hout hcur
    | succ gone =>
      refine ⟨fun q rest h => (by cases h), fun n place h => ?_⟩
      cases h
      exact hcur
  | cons c cs ih =>
    intro gone cur hcur
    cases gone with
    | zero => exact hout hcur
    | succ gone =>
      rw [climb]
      split
      · exact ih hcur
      · split
        · exact ih hcur
        · rename_i hne
          exact ih (Tree.prefix_dropLast hcur (hroot ▸ hne))
      · exact ⟨fun _ _ h => (by cases h), fun _ _ h => (by cases h)⟩

theorem way_homed (h : Homed home p) : (∀ q rest, w.way p path = .goesOn q rest → Homed home q) ∧
    ∀ n place, w.way p path = .ends n place → home <+: place := by
  unfold way
  split
  · refine ⟨fun q rest hq => ?_, fun _ _ hq => (by cases hq)⟩
    cases hq
    exact h
  · split
    · exact ⟨fun _ _ hq => (by cases hq), fun _ _ hq => (by cases hq)⟩
    · exact climb_homed h.root h.cwd

theorem onWay_eq_some_iff {β : Type} {f : Proc → Bytes → Option β} {x : β} : w.onWay p path f = some x ↔
    ∃ q rest, w.way p path = .goesOn q rest ∧ f q rest = some x := by
  unfold onWay
  cases w.way p path <;> simp

theorem removedAt_eq_some_iff {n : Nat} : w.removedAt p path = some (n, l) ↔ w.way p path = .ends n l := by
  unfold removedAt
  cases w.way p path <;> simp

theorem leadsTo_eq_some_iff {follow : Bool} : w.leadsTo p follow path = some l ↔
    ∃ q rest, w.way p path = .goesOn q rest ∧ resolve w.files.tree q follow rest = some l := onWay_eq_some_iff

theorem leadsTo_inside {follow : Bool} (h : Homed home p) (hl : w.leadsTo p follow path = some l) : home <+: l := by
  obtain ⟨q, rest, hway, hl⟩ := leadsTo_eq_some_iff.mp hl
  exact resolve_inside ((way_homed h).1 q rest hway) hl

/-- A path that leads somewhere from the home shows that there is one. -/
theorem leadsTo_dir {follow : Bool} (h : Homed home p) (hl : w.leadsTo p follow path = some l) :
    w.files.tree.node home = some .dir := by
  obtain ⟨q, rest, hway, hl⟩ := leadsTo_eq_some_iff.mp hl
  exact ((way_homed h).1 q rest hway).dir (resolve_eq_some_iff.mp hl).1

theorem fileAt_eq_some_iff : w.fileAt p path = some l ↔
    w.leadsTo p true path = some l ∧ w.files.tree.node l = some .file := by
  rw [fileAt, Option.filter_eq_some_iff]
  simp

theorem directoryAt_eq_some_iff : w.directoryAt p path = some l ↔
    w.leadsTo p true path = some l ∧ w.files.tree.node l = some .dir := by
  rw [directoryAt, Option.filter_eq_some_iff]
  simp

/-- A change of directory is one to a directory that is there, or that has been removed. -/
theorem goesTo_cases {n : Nat} (hl : w.goesTo p path = some (n, l)) :
    (n = 0 ∧ w.directoryAt p path = some l) ∨ (w.directoryAt p path = none ∧ w.way p path = .ends n l) := by
  unfold goesTo at hl
  cases hdir : w.directoryAt p path with
  | some d =>
    rw [hdir] at hl
    cases hl
    exact .inl ⟨rfl, rfl⟩
  | none =>
    rw [hdir, Option.map_none, Option.none_or, removedAt_eq_some_iff] at hl
    exact .inr ⟨rfl, hl⟩

theorem goesTo_inside {n : Nat} (h : Homed home p) (hl : w.goesTo p path = some (n, l)) : home <+: l := by
  rcases goesTo_cases hl with ⟨-, hdir⟩ | ⟨-, hway⟩
  · exact leadsTo_inside h (directoryAt_eq_some_iff.mp hdir).1
  · exact (way_homed h).2 n l hway

theorem creates_eq_some_iff : w.creates p path = some l ↔ ∃ q rest, w.way p path = .goesOn q rest ∧
    Takes w.files.tree q rest ∧
      Misses w.files.tree (placeOf q.root) true MAXSYMLINKS (steps rest) (startOf q rest) l := by
  rw [creates, onWay_eq_some_iff]
  refine exists_congr fun q => exists_congr fun rest => and_congr_right fun _ => ?_
  rw [← walkNew_eq_some_iff]
  simp

theorem makes_eq_some_iff : w.makes p path = some l ↔ ∃ q rest, w.way p path = .goesOn q rest ∧
    Takes w.files.tree q rest ∧
      Misses w.files.tree (placeOf q.root) false MAXSYMLINKS (namedSteps rest) (startOf q rest) l := by
  rw [makes, onWay_eq_some_iff]
  refine exists_congr fun q => exists_congr fun rest => and_congr_right fun _ => ?_
  rw [← walkNew_eq_some_iff]
  simp

/-- What misses an entry from the home has a home, and misses it there. -/
theorem creates_inside (h : Homed home p) (hl : w.creates p path = some l) :
    home <+: l ∧ w.files.tree.node home = some .dir ∧ w.files.tree.Vacant l := by
  obtain ⟨q, rest, hway, htakes, hmiss⟩ := creates_eq_some_iff.mp hl
  have hq : Homed home q := (way_homed h).1 q rest hway
  have hv : w.files.tree.Vacant l := hmiss.vacant htakes.2.2.1 htakes.2.2.2
  rw [hq.root] at hmiss
  exact ⟨hmiss.inside (hq.startOf rest), hq.dir htakes, hv⟩

theorem makes_inside (h : Homed home p) (hl : w.makes p path = some l) :
    home <+: l ∧ w.files.tree.node home = some .dir := by
  obtain ⟨q, rest, hway, htakes, hmiss⟩ := makes_eq_some_iff.mp hl
  have hq : Homed home q := (way_homed h).1 q rest hway
  rw [hq.root] at hmiss
  exact ⟨hmiss.inside (hq.startOf rest), hq.dir htakes⟩

theorem unlinks_inside (h : Homed home p) (hl : w.unlinks p path = some l) :
    home <+: l ∧ w.files.tree.node home = some .dir := by
  obtain ⟨q, rest, hway, hl⟩ := onWay_eq_some_iff.mp hl
  have hq : Homed home q := (way_homed h).1 q rest hway
  have hresolve := (unlinks_eq_some_iff.mp hl).1
  exact ⟨resolve_inside hq hresolve, hq.dir (resolve_eq_some_iff.mp hresolve).1⟩

theorem rmdirs_inside (h : Homed home p) (hl : w.rmdirs p path = some l) :
    home <+: l ∧ w.files.tree.node home = some .dir := by
  obtain ⟨q, rest, hway, hl⟩ := onWay_eq_some_iff.mp hl
  have hq : Homed home q := (way_homed h).1 q rest hway
  have hentry := (rmdirs_eq_some_iff.mp hl).2.1
  exact ⟨entryOf_inside hq hentry, hq.dir (entryOf_eq_some_iff.mp hentry).1⟩

/-- The files that are known after a change, if there is one. -/
def knows (K : Set Nat) (w : System) (change : Option (FileStore.Change Name UInt8)) : Set Nat :=
  change.elim K (FileStore.Change.knows K w.files)

/-- **What a call comes to is inside the home**, and there is a home if it changes anything. -/
theorem upshot_inside (h : Homed home p) (hw : Within home K w) (c : Call) :
    (∀ change ∈ (w.upshot p c).change, change.Inside home K ∧ w.files.tree.node home = some .dir) ∧
      ∀ o i, (w.upshot p c).opening = some o → o.file? = some i → i ∈ w.knows K (w.upshot p c).change := by
  have hfile : ∀ {path l}, w.fileAt p path = some l → w.files.number l ∈ K := fun hl =>
    hw.files.known _ (leadsTo_inside h (fileAt_eq_some_iff.mp hl).1) (fileAt_eq_some_iff.mp hl).2
  cases c with
  | stat _ | lstat _ | chdir _ => exact ⟨fun _ hc => (by cases hc), fun _ _ ho => (by cases ho)⟩
  | openRead path =>
    refine ⟨fun _ hc => (by cases hc), fun o i ho hi => ?_⟩
    change w.reads p path = some o at ho
    unfold reads at ho
    cases hl : w.fileAt p path with
    | some l =>
      rw [hl] at ho
      cases ho
      cases hi
      exact hfile hl
    | none =>
      rw [hl, Option.map_none, Option.none_or, Option.map_eq_some_iff] at ho
      obtain ⟨_, _, rfl⟩ := ho
      cases hi
  | opendir path =>
    refine ⟨fun _ hc => (by cases hc), fun o i ho hi => ?_⟩
    obtain ⟨_, _, rfl⟩ := Option.map_eq_some_iff.mp ho
    cases hi
  | openWrite path =>
    simp only [upshot]
    cases hl : w.fileAt p path with
    | some l =>
      refine ⟨fun change hc => ?_, fun o i ho hi => ?_⟩
      · cases hc
        exact ⟨hfile hl, leadsTo_dir h (fileAt_eq_some_iff.mp hl).1⟩
      · cases ho
        cases hi
        exact hfile hl
    | none =>
      cases hl' : w.creates p path with
      | none => exact ⟨fun _ hc => (by cases hc), fun _ _ ho => (by cases ho)⟩
      | some l =>
        obtain ⟨hinside, hdir, hv⟩ := creates_inside h hl'
        refine ⟨fun change hc => ?_, fun o i ho hi => ?_⟩
        · cases hc
          exact ⟨hinside, hdir⟩
        · cases ho
          cases hi
          simp only [knows, Option.map_some, Option.elim_some, FileStore.Change.knows, if_pos hv]
          exact Set.mem_insert ..
  | unlink path =>
    refine ⟨fun change hc => ?_, fun _ _ ho => (by cases ho)⟩
    obtain ⟨l, hl, rfl⟩ := Option.map_eq_some_iff.mp hc
    exact unlinks_inside h hl
  | mkdir path =>
    refine ⟨fun change hc => ?_, fun _ _ ho => (by cases ho)⟩
    obtain ⟨l, hl, rfl⟩ := Option.map_eq_some_iff.mp hc
    exact makes_inside h hl
  | rmdir path =>
    refine ⟨fun change hc => ?_, fun _ _ ho => (by cases ho)⟩
    obtain ⟨l, hl, rfl⟩ := Option.map_eq_some_iff.mp hc
    exact rmdirs_inside h hl

/-! ### A matter of what is there -/

section Same

variable (h : Homed home p) (hs : Same home K w w')
include h hs

omit h in
theorem way_congr (path : Bytes) : w'.way p path = w.way p path := by rw [way, way, hs.stranded]

omit h in
theorem removedAt_congr (path : Bytes) : w'.removedAt p path = w.removedAt p path := by
  rw [removedAt, removedAt, way_congr hs]

theorem onWay_congr {β : Type} {f f' : Proc → Bytes → Option β} (hf : ∀ q rest, Homed home q → f' q rest = f q rest)
    (path : Bytes) : w'.onWay p path f' = w.onWay p path f := by
  rw [onWay, onWay, way_congr hs]
  cases hway : w.way p path with
  | goesOn q rest => exact hf q rest ((way_homed h).1 q rest hway)
  | ends => rfl
  | lost => rfl

theorem leadsTo_congr (follow : Bool) (path : Bytes) : w'.leadsTo p follow path = w.leadsTo p follow path :=
  onWay_congr h hs (fun _ rest hq => resolve_congr hq hs.files.tree follow rest) path

theorem creates_congr (path : Bytes) : w'.creates p path = w.creates p path := by
  refine onWay_congr h hs (fun q rest hq => ?_) path
  rw [hq.root, walkNew_congr hs.files.tree (hq.startOf rest)]
  exact if_congr (takes_congr hq hs.files.tree rest) rfl rfl

theorem makes_congr (path : Bytes) : w'.makes p path = w.makes p path := by
  refine onWay_congr h hs (fun q rest hq => ?_) path
  rw [hq.root, walkNew_congr hs.files.tree (hq.startOf rest)]
  exact if_congr (takes_congr hq hs.files.tree rest) rfl rfl

theorem unlinks_congr (path : Bytes) : w'.unlinks p path = w.unlinks p path :=
  onWay_congr h hs (fun _ rest hq => CftpServer.unlinks_congr hq hs.files.tree rest) path

theorem rmdirs_congr (path : Bytes) : w'.rmdirs p path = w.rmdirs p path :=
  onWay_congr h hs (fun _ rest hq => CftpServer.rmdirs_congr hq hs.files.tree rest) path

theorem fileAt_congr (path : Bytes) : w'.fileAt p path = w.fileAt p path := by
  ext l
  rw [fileAt_eq_some_iff, fileAt_eq_some_iff, leadsTo_congr h hs]
  refine and_congr_right fun hl => ?_
  rw [Tree.node_congr hs.files.tree (leadsTo_inside h hl)]

theorem directoryAt_congr (path : Bytes) : w'.directoryAt p path = w.directoryAt p path := by
  ext l
  rw [directoryAt_eq_some_iff, directoryAt_eq_some_iff, leadsTo_congr h hs]
  refine and_congr_right fun hl => ?_
  rw [Tree.node_congr hs.files.tree (leadsTo_inside h hl)]

theorem goesTo_congr (path : Bytes) : w'.goesTo p path = w.goesTo p path := by
  rw [goesTo, goesTo, directoryAt_congr h hs, removedAt_congr hs]

theorem number_congr (hl : w.fileAt p path = some l) : w'.files.number l = w.files.number l :=
  hs.files.number l (leadsTo_inside h (fileAt_eq_some_iff.mp hl).1) (fileAt_eq_some_iff.mp hl).2

theorem reads_congr (path : Bytes) : w'.reads p path = w.reads p path := by
  rw [reads, reads, fileAt_congr h hs, goesTo_congr h hs]
  cases hl : w.fileAt p path with
  | none => rfl
  | some l => simp only [Option.map_some, number_congr h hs hl]

omit h in
theorem describe_congr (hw : Within home K w) (hl : home <+: l) (st : Stat) : w'.describe l st = w.describe l st := by
  rw [describe, describe, Tree.node_congr hs.files.tree hl]
  cases hn : w.files.tree.node l with
  | none => rfl
  | some k =>
    cases k with
    | dir => rfl
    | link _ => rfl
    | file =>
      simp only [Option.map_some]
      rw [hs.files.number l hl hn, hs.files.contents _ (hw.files.known l hl hn)]

/-- **What a call comes to is a matter of what is in the home.** -/
theorem upshot_congr (c : Call) : w'.upshot p c = w.upshot p c := by
  cases c with
  | stat _ | lstat _ => simp only [upshot, hs.stranded]
  | openRead path => simp only [upshot, hs.stranded, reads_congr h hs]
  | opendir path => simp only [upshot, hs.stranded, goesTo_congr h hs]
  | chdir path => simp only [upshot, hs.stranded, goesTo_congr h hs]
  | unlink path => simp only [upshot, hs.stranded, unlinks_congr h hs]
  | mkdir path => simp only [upshot, hs.stranded, makes_congr h hs]
  | rmdir path => simp only [upshot, hs.stranded, rmdirs_congr h hs]
  | openWrite path =>
    simp only [upshot, hs.stranded, creates_congr h hs, fileAt_congr h hs, hs.files.next]
    cases hl : w.fileAt p path with
    | none => rfl
    | some l => simp only [number_congr h hs hl]

end Same

/-! ### What a process does -/

theorem subset_knows (K : Set Nat) (w : System) (change : Option (FileStore.Change Name UInt8)) :
    K ⊆ w.knows K change := by
  intro i hi
  cases change with
  | none => exact hi
  | some change =>
    cases change with
    | create l =>
      simp only [knows, Option.elim_some, FileStore.Change.knows]
      split
      · exact Set.mem_insert_of_mem _ hi
      · exact hi
    | _ => exact hi

/-- A change inside the home. -/
theorem changed_spec (hw : FileStore.Within home K w.files) {change : Option (FileStore.Change Name UInt8)}
    (hc : ∀ c ∈ change, c.Inside home K ∧ w.files.tree.node home = some .dir) :
    FileStore.Within home (w.knows K change) (w.changed change) ∧
      (∀ f, FileStore.SameOutside home K f w.files →
        FileStore.SameOutside home (w.knows K change) f (w.changed change)) ∧
      ∀ w' : System, FileStore.SameBelow home K w.files w'.files →
        FileStore.SameBelow home (w.knows K change) (w.changed change) (w'.changed change) ∧
          ∀ l, ¬ home <+: l → FileStore.SameAt K w.files w'.files l →
            FileStore.SameAt (w.knows K change) (w.changed change) (w'.changed change) l := by
  cases change with
  | none => exact ⟨hw, fun _ h => h, fun _ h => ⟨h, fun _ _ h => h⟩⟩
  | some c =>
    obtain ⟨hinside, hdir⟩ := hc c rfl
    exact ⟨hw.apply hinside, fun f h => h.apply hinside, fun w' h =>
      ⟨h.apply hdir hinside, fun l hl hat => hat.apply hl h hdir hinside⟩⟩

/-- What is done leaves the home known, changes nothing outside, and does the same in a system that is the same
inside and has the same names of users and groups. -/
def Keeps (home : List Name) (K : Set Nat) (w : System) (f : System → System) : Prop :=
  ∃ K', Within home K' (f w) ∧
    (∀ g, FileStore.SameOutside home K g w.files → FileStore.SameOutside home K' g (f w).files) ∧
    ∀ w', Same home K w w' → Same home K' (f w) (f w')

theorem call_keeps (h : Homed home p) (hw : Within home K w) (c : Call) : Keeps home K w (·.call p c) := by
  obtain ⟨hinside, hopening⟩ := upshot_inside h hw c
  obtain ⟨hfiles, houtside, hbelow⟩ := changed_spec hw.files hinside
  refine ⟨w.knows K (w.upshot p c).change, ⟨hfiles, ?_, hopening⟩, houtside, fun w' hs => ?_⟩
  · exact fun fd o i ho hi => subset_knows K w _ (hw.handles fd o i ho hi)
  · have hupshot := upshot_congr h hs c
    obtain ⟨hsame, hnames⟩ := hbelow w' hs.files
    refine ⟨?_, hs.handles, congrArg Upshot.opening hupshot, congrArg Upshot.stranded hupshot, hs.ticks, ?_⟩
    · simp only [call, hupshot]
      exact hsame
    · simp only [call, hupshot]
      exact fun l hl hout => hnames l hout (hs.names l hl hout)

/-- One descriptor is another one now. -/
theorem Within.update (hw : Within home K w) {fd : Int} {new : Option Handle}
    (hnew : ∀ o i, new = some o → o.file? = some i → i ∈ K) :
    ∀ fd' o i, Function.update w.handles fd new fd' = some o → o.file? = some i → i ∈ K := by
  intro fd' o i ho hi
  by_cases hne : fd' = fd
  · rw [hne, Function.update_self] at ho
    exact hnew o i ho hi
  · rw [Function.update_of_ne hne] at ho
    exact hw.handles fd' o i ho hi

theorem store_keeps (hw : Within home K w) (fd : Int) (bytes : Bytes) : Keeps home K w (·.store fd bytes) := by
  by_cases hfd : ∃ i pos, w.handles fd = some (.writing i pos)
  · obtain ⟨i, pos, hfd⟩ := hfd
    have hi : i ∈ K := hw.handles fd _ i hfd rfl
    have hstore : ∀ {w : System}, w.handles fd = some (.writing i pos) → w.store fd bytes =
        { w with
          files := w.files.write i (overwrite (w.files.contents i) pos bytes)
          handles := Function.update w.handles fd (some (.writing i (pos + bytes.length))) } := by
      intro w h
      rw [store, h]
      rfl
    refine ⟨K, ?_, fun g hg => ?_, fun w' hs => ?_⟩
    · simp only [hstore hfd]
      refine ⟨hw.files.apply (c := .write i _) hi, hw.update fun o j ho hj => ?_, hw.opening⟩
      cases ho
      cases hj
      exact hi
    · simp only [hstore hfd]
      exact hg.apply (c := .write i _) hi
    · simp only [hstore hfd, hstore ((congrFun hs.handles fd).trans hfd)]
      refine ⟨⟨hs.files.tree, hs.files.number, fun j hj => ?_, hs.files.next⟩, ?_, hs.opening, hs.stranded, hs.ticks,
        fun l hl hout => ?_⟩
      · simp only [FileStore.write_contents, Function.update_apply, hs.files.contents i hi, hs.files.contents j hj]
      · rw [hs.handles]
      · rw [hs.files.contents i hi]
        exact (hs.names l hl hout).write hi _
  · have hstore : ∀ {w : System}, (¬ ∃ i pos, w.handles fd = some (.writing i pos)) → w.store fd bytes = w := by
      intro w h
      unfold store
      split
      · rename_i i pos hpos
        exact absurd ⟨i, pos, hpos⟩ h
      · rfl
    refine ⟨K, by simp only [hstore hfd]; exact hw, fun g hg => by simp only [hstore hfd]; exact hg, fun w' hs => ?_⟩
    simp only [hstore hfd, hstore (show ¬ ∃ i pos, w'.handles fd = some (.writing i pos) by rw [hs.handles]; exact hfd)]
    exact hs

theorem act_keeps (hw : Within home K w) (e : Effect) : Keeps home K w (·.act e) := by
  cases e with
  | store b tls fd bytes => exact store_keeps hw fd bytes
  | opened fd =>
    refine ⟨K, ⟨hw.files, hw.update hw.opening, fun _ _ ho => (by cases ho)⟩, fun g hg => hg, fun w' hs => ?_⟩
    refine ⟨hs.files, ?_, rfl, hs.stranded, hs.ticks, hs.names⟩
    simp only [act, hs.handles, hs.opening]
  | closed fd =>
    refine ⟨K, ⟨hw.files, hw.update fun _ _ ho => (by cases ho), hw.opening⟩, fun g hg => hg, fun w' hs => ?_⟩
    refine ⟨hs.files, ?_, hs.opening, hs.stranded, hs.ticks, hs.names⟩
    simp only [act, hs.handles]
  | _ => exact ⟨K, hw, fun g hg => hg, fun w' hs => hs⟩

/-- **One thing the process does**, with its root at home. -/
theorem after_keeps (env : Env Moment) (h : Homed home p) (hw : Within home K w) (e : Effect) :
    Keeps home K w (System.after env · p e) := by
  have htick : ∀ {f : System → System}, Keeps home K w f →
      Keeps home K w (fun w => { f w with ticks := w.ticks + 1 }) := by
    rintro f ⟨K', hwithin, houtside, hsame⟩
    refine ⟨K', ⟨hwithin.files, hwithin.handles, hwithin.opening⟩, houtside, fun w' hs => ?_⟩
    have hs' := hsame w' hs
    refine ⟨hs'.files, hs'.handles, hs'.opening, hs'.stranded, ?_, hs'.names⟩
    simp only [hs.ticks]
  cases e with
  | call c =>
    by_cases hpermits : permits env w.moment p c = true
    · obtain ⟨K', hwithin, houtside, hsame⟩ := htick (call_keeps h hw c)
      refine ⟨K', ?_, fun g hg => ?_, fun w' hs => ?_⟩
      · simp only [after, hpermits, if_true]
        exact hwithin
      · simp only [after, hpermits, if_true]
        exact houtside g hg
      · have hsame' := hsame w' hs
        simp only [after, hs.moment, hpermits, if_true]
        exact hsame'
    · refine ⟨K, ?_, fun g hg => ?_, fun w' hs => ?_⟩
      · simp only [after, hpermits]
        exact ⟨hw.files, hw.handles, fun _ _ ho => (by cases ho)⟩
      · simp only [after, hpermits]
        exact hg
      · simp only [after, hs.moment, hpermits, hs.ticks]
        exact ⟨hs.files, hs.handles, rfl, hs.stranded, rfl, hs.names⟩
  | _ => exact htick (act_keeps hw _)

/-! ### What it is told -/

/-- **The outcomes of calls are a matter of what is in the home**, and of the names of users and groups. -/
theorem outcomes_congr (env : Env Moment) (h : Homed home p) (hw : Within home K w) (hs : Same home K w w') :
    (onStore env).outcomes w' p = (onStore env).outcomes w p := by
  have hshows : ∀ (follow : Bool) (path : Bytes), w'.shows p follow path = w.shows p follow path := by
    intro follow path
    funext st
    rw [shows, shows, removedAt_congr hs, leadsTo_congr h hs]
    cases hl : w.leadsTo p follow path with
    | none => rfl
    | some l => simp only [Option.bind_some, describe_congr hs hw (leadsTo_inside h hl)]
  have hlists : ∀ path, w'.lists p path = w.lists p path := by
    intro path
    rw [lists, lists, directoryAt_congr h hs, removedAt_congr hs]
    cases hl : w.directoryAt p path with
    | none => rfl
    | some l =>
      have hinside := leadsTo_inside h (directoryAt_eq_some_iff.mp hl).1
      simp only [Option.map_some, Tree.names_congr hs.files.tree hinside]
  have hcontents : ∀ {fd o i}, w.handles fd = some o → o.file? = some i → w'.files.contents i = w.files.contents i :=
    fun ho hi => hs.files.contents _ (hw.handles _ _ _ ho hi)
  have hdirectory : (onStore env).directory w' p = (onStore env).directory w p := by
    funext path
    simp only [Env.directory, onStore, goesTo_congr h hs]
  rw [Env.outcomes, Env.outcomes, hdirectory]
  have husers : w'.lookup [etc, passwd] = w.lookup [etc, passwd] := hs.lookup hw (by decide)
  have hgroups : w'.lookup [etc, group] = w.lookup [etc, group] := hs.lookup hw (by decide)
  simp only [onStore, hs.moment, husers, hgroups, hs.stranded, hs.handles, goesTo_congr h hs, reads_congr h hs,
    fileAt_congr h hs, creates_congr h hs, unlinks_congr h hs, makes_congr h hs, rmdirs_congr h hs, hshows, hlists,
    Outcomes.mk.injEq, true_and, and_true]
  refine ⟨?_, ?_, ?_⟩
  · funext fd
    cases ho : w.handles fd with
    | none => rfl
    | some o =>
      cases o with
      | directory => rfl
      | reading i => simp only [hcontents ho rfl]
      | writing i pos => simp only [hcontents ho rfl]
  · funext fd pos n
    cases ho : w.handles fd with
    | none => rfl
    | some o =>
      cases o with
      | directory => rfl
      | reading i => simp only [hcontents ho rfl]
      | writing i pos => rfl
  · funext fd n
    cases ho : w.handles fd with
    | none => rfl
    | some o =>
      cases o with
      | directory => rfl
      | reading i => simp only [hcontents ho rfl]
      | writing i pos => rfl

/-- A change of directory ends inside the home. -/
theorem chdir_homed (env : Env Moment) (h : Homed home p) (hok : (onStore env).chdir w p path = true) :
    Homed home { p with cwd := (onStore env).directory w p path } := by
  refine ⟨h.root, ?_⟩
  simp only [Env.directory]
  split
  · rw [h.root]
  · simp only [onStore, Bool.and_eq_true, Option.isSome_iff_exists] at hok ⊢
    obtain ⟨-, ⟨n, l⟩, hl⟩ := hok
    rw [hl, Option.map_some, Option.getD_some, placeOf_pathOf]
    exact goesTo_inside h hl

end System

end CftpServer
