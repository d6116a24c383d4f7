import Mathlib.Algebra.Order.BigOperators.Group.Finset
import Mathlib.Algebra.Order.Ring.Int
import Svr4.Kernel.Ufs.InodeMaps

/-! The counts of inodes over whole runs of `ufs_ialloc` and `ufs_ifree`. -/

namespace Svr4.Ufs

open Function

attribute [local simp] Fs.setCg

/-- The counts of every group and of the file system, where `dir` says which inodes are
directories. -/
structure Tallied (fs : Fs) (dir : Nat → Bool) : Prop where
  nifree {c : Nat} : c < fs.fsNcg → (fs.cg c).cgCs.csNifree = Nat.count (isclr (fs.cg c).cgIused) fs.fsIpg
  ndir {c : Nat} : c < fs.fsNcg →
    (fs.cg c).cgCs.csNdir = Nat.count (fun i => ¬ isclr (fs.cg c).cgIused i ∧ dir (c * fs.fsIpg + i)) fs.fsIpg
  summary {c : Nat} : c < fs.fsNcg → fs.fsCs c = (fs.cg c).cgCs
  totalNifree : fs.fsCstotal.csNifree = ∑ c ∈ Finset.range fs.fsNcg, (fs.fsCs c).csNifree
  totalNdir : fs.fsCstotal.csNdir = ∑ c ∈ Finset.range fs.fsNcg, (fs.fsCs c).csNdir

/-- The inodes that are directories. -/
def Fs.directory (fs : Fs) (ino : Nat) : Bool := isDirectory (fs.iMode ino)

attribute [local simp] Fs.directory

/-- The counts are those of the maps and of the modes of the inodes. -/
def Exact (fs : Fs) : Prop := Tallied fs fs.directory

/-- What `mkfs` lays out and no call changes, and the rotors. Inode 0 is never free. -/
structure Laid (fs : Fs) : Prop where
  whole : 8 ∣ fs.fsIpg
  groups : 0 < fs.fsNcg
  rotor {c : Nat} : c < fs.fsNcg → (fs.cg c).cgIrotor < fs.fsIpg
  zero : ¬ isclr (fs.cg 0).cgIused 0

section
variable {fs : Fs} {dir dir' : Nat → Bool} {c i : Nat} {mode ino : Nat} {fs' : Fs}

theorem Laid.positive (laid : Laid fs) : 0 < fs.fsIpg := Nat.lt_of_le_of_lt (Nat.zero_le _) (laid.rotor laid.groups)

/-! ## One group changes -/

def Csum.bump (cs : Csum) (ndir nifree : Int) : Csum := ⟨cs.csNdir + ndir, cs.csNifree + nifree⟩

/-- The block of group `c` is `cgp`, with the change of its counts everywhere. -/
def Fs.retally (fs : Fs) (c : Nat) (cgp : Cg) (ndir nifree : Int) : Fs :=
  { fs with
    cg := update fs.cg c cgp
    fsCs := update fs.fsCs c ((fs.fsCs c).bump ndir nifree)
    fsCstotal := fs.fsCstotal.bump ndir nifree }

attribute [local simp] Fs.retally

theorem Tallied.retally {cgp : Cg} {ndir nifree : Int} (tallied : Tallied fs dir) (inside : c < fs.fsNcg)
    (counts : cgp.cgCs = (fs.cg c).cgCs.bump ndir nifree)
    (free : cgp.cgCs.csNifree = Nat.count (isclr cgp.cgIused) fs.fsIpg)
    (dirs : cgp.cgCs.csNdir = Nat.count (fun i => ¬ isclr cgp.cgIused i ∧ dir' (c * fs.fsIpg + i)) fs.fsIpg)
    (same : ∀ b i, b ≠ c → i < fs.fsIpg → dir' (b * fs.fsIpg + i) = dir (b * fs.fsIpg + i)) :
    Tallied (fs.retally c cgp ndir nifree) dir' where
  nifree {b} below := by
    by_cases here : b = c
    · subst here
      simpa using free
    · simpa [here] using tallied.nifree below
  ndir {b} below := by
    by_cases here : b = c
    · subst here
      simpa using dirs
    · simp only [Fs.retally, update_of_ne here]
      rw [tallied.ndir below]
      congr 1
      exact count_same fun i small => by rw [same b i here small]
  summary {b} below := by
    by_cases here : b = c
    · subst here
      simp [counts, tallied.summary below]
    · simpa [here] using tallied.summary below
  totalNifree := by
    have changed := @sum_change fs.fsNcg c (fun b => (fs.fsCs b).csNifree)
      (fun b => (update fs.fsCs c ((fs.fsCs c).bump ndir nifree) b).csNifree) inside
      fun b _ other => by simp [other]
    simp only [Fs.retally, Csum.bump] at changed ⊢
    rw [changed, tallied.totalNifree]
    simp
  totalNdir := by
    have changed := @sum_change fs.fsNcg c (fun b => (fs.fsCs b).csNdir)
      (fun b => (update fs.fsCs c ((fs.fsCs c).bump ndir nifree) b).csNdir) inside
      fun b _ other => by simp [other]
    simp only [Fs.retally, Csum.bump] at changed ⊢
    rw [changed, tallied.totalNdir]
    simp

/-! ## `ialloccg` -/

/-- The group after `gotit`. -/
def Cg.take (cgp : Cg) (i : Nat) (directory : Bool) : Cg :=
  { cgp with cgIused := setbit cgp.cgIused i, cgCs := cgp.cgCs.bump (if directory then 1 else 0) (-1) }

theorem gotInode_eq (mode : Nat) : gotInode mode c i fs =
    (c * fs.fsIpg + i, fs.retally c ((fs.cg c).take i (isDirectory mode)) (if isDirectory mode then 1 else 0) (-1)) := by
  unfold gotInode
  by_cases directory : isDirectory mode
  · simp [Fs.addCs, directory, Cg.take, Csum.bump, Int.sub_eq_add_neg]
  · simp [Fs.addCs, directory, Cg.take, Csum.bump, Int.sub_eq_add_neg]

theorem number_inj {ipg a b i j : Nat} (first : i < ipg) (second : j < ipg) (same : a * ipg + i = b * ipg + j) :
    a = b ∧ i = j := by
  have positive : 0 < ipg := Nat.lt_of_le_of_lt (Nat.zero_le i) first
  have groups : a = b := by
    have quotient := congrArg (· / ipg) same
    simpa [Nat.add_comm, Nat.add_mul_div_right, positive, Nat.div_eq_of_lt, first, second] using quotient
  subst groups
  exact ⟨rfl, by omega⟩

theorem Tallied.take (tallied : Tallied fs dir) (inside : c < fs.fsNcg) (small : i < fs.fsIpg)
    (clear : isclr (fs.cg c).cgIused i) (directory : Bool) :
    Tallied (fs.retally c ((fs.cg c).take i directory) (if directory then 1 else 0) (-1))
      (update dir (c * fs.fsIpg + i) directory) := by
  refine tallied.retally inside rfl ?_ ?_ ?_
  · have count : Nat.count (isclr (fs.cg c).cgIused) fs.fsIpg = Nat.count (isclr (setbit (fs.cg c).cgIused i)) fs.fsIpg + 1 := by
      refine count_insert small (by simp [isclr_setbit]) fun j _ => ?_
      rw [isclr_setbit]
      by_cases same : j = i
      · simp [same, clear]
      · simp [same]
    simp only [Cg.take, Csum.bump, tallied.nifree inside, count]
    omega
  · have elsewhere (j : Nat) (below : j < fs.fsIpg) (differ : j ≠ i) :
        update dir (c * fs.fsIpg + i) directory (c * fs.fsIpg + j) = dir (c * fs.fsIpg + j) :=
      update_of_ne (fun same => differ (number_inj below small same).2) ..
    simp only [Cg.take, Csum.bump, tallied.ndir inside]
    cases directory with
    | true =>
      have count : Nat.count (fun j => ¬ isclr (setbit (fs.cg c).cgIused i) j ∧
            update dir (c * fs.fsIpg + i) true (c * fs.fsIpg + j)) fs.fsIpg =
          Nat.count (fun j => ¬ isclr (fs.cg c).cgIused j ∧ dir (c * fs.fsIpg + j)) fs.fsIpg + 1 := by
        refine count_insert small (by simp [clear]) fun j below => ?_
        rw [isclr_setbit]
        by_cases same : j = i
        · simp [same]
        · rw [elsewhere j below same]
          simp [same]
      rw [if_pos rfl, count]
      omega
    | false =>
      rw [if_neg (by simp), add_zero]
      congr 1
      refine count_same fun j below => ?_
      rw [isclr_setbit]
      by_cases same : j = i
      · simp [same, clear]
      · rw [elsewhere j below same]
        simp [same]
  · intro b j other below
    exact update_of_ne (fun same => other (number_inj below small same).1) ..

theorem Laid.take (laid : Laid fs) (directory : Bool) (ndir nifree : Int) :
    Laid (fs.retally c ((fs.cg c).take i directory) ndir nifree) where
  whole := laid.whole
  groups := laid.groups
  rotor {b} below := by
    by_cases here : b = c
    · subst here
      simpa [Cg.take] using laid.rotor below
    · simpa [here] using laid.rotor below
  zero := by
    by_cases here : 0 = c
    · subst here
      simp [Cg.take, isclr_setbit, laid.zero]
    · simpa [here] using laid.zero

/-- One inode has been allocated. -/
structure Took (fs fs' : Fs) (ino : Nat) : Prop where
  ncg : fs'.fsNcg = fs.fsNcg
  ipg : fs'.fsIpg = fs.fsIpg
  iMode : fs'.iMode = fs.iMode
  inside : ino < fs.fsNcg * fs.fsIpg
  free : ¬ fs.used ino
  used (j : Nat) : fs'.used j ↔ j = ino ∨ fs.used j
  total : fs'.fsCstotal.csNifree = fs.fsCstotal.csNifree - 1

theorem group_number (small : i < fs.fsIpg) : itog fs (c * fs.fsIpg + i) = c := by
  have positive : 0 < fs.fsIpg := Nat.lt_of_le_of_lt (Nat.zero_le i) small
  rw [itog, Nat.add_comm, Nat.add_mul_div_right _ _ positive, Nat.div_eq_of_lt small, Nat.zero_add]

theorem group_place (small : i < fs.fsIpg) : (c * fs.fsIpg + i) % fs.fsIpg = i := by
  rw [Nat.add_comm, Nat.add_mul_mod_self_right, Nat.mod_eq_of_lt small]

theorem took_take (inside : c < fs.fsNcg) (small : i < fs.fsIpg) (clear : isclr (fs.cg c).cgIused i) (directory : Bool)
    (ndir : Int) : Took fs (fs.retally c ((fs.cg c).take i directory) ndir (-1)) (c * fs.fsIpg + i) where
  ncg := rfl
  ipg := rfl
  iMode := rfl
  inside := by
    calc c * fs.fsIpg + i < c * fs.fsIpg + fs.fsIpg := Nat.add_lt_add_left small _
      _ = (c + 1) * fs.fsIpg := (Nat.succ_mul c fs.fsIpg).symm
      _ ≤ fs.fsNcg * fs.fsIpg := Nat.mul_le_mul_right _ inside
  free := by
    rw [Fs.used, group_number small, group_place small]
    exact fun used => used clear
  used j := by
    have parts : j / fs.fsIpg * fs.fsIpg + j % fs.fsIpg = j := by
      rw [Nat.mul_comm]
      exact Nat.div_add_mod j fs.fsIpg
    simp only [Fs.used, itog, Fs.retally]
    by_cases here : j / fs.fsIpg = c
    · subst here
      rw [update_self, Cg.take, isclr_setbit]
      have same : j = j / fs.fsIpg * fs.fsIpg + i ↔ j % fs.fsIpg = i := by omega
      rw [same]
      tauto
    · rw [update_of_ne here]
      have other : j ≠ c * fs.fsIpg + i := fun same => here (by rw [same]; exact group_number small)
      simp [other]
  total := rfl

theorem Tallied.rotor (tallied : Tallied fs dir) (ipref : Nat) :
    Tallied (fs.setCg c fun cgp => { cgp with cgIrotor := ipref }) dir := by
  have counts (b : Nat) : ((fs.setCg c fun cgp => { cgp with cgIrotor := ipref }).cg b).cgCs = (fs.cg b).cgCs ∧
      ((fs.setCg c fun cgp => { cgp with cgIrotor := ipref }).cg b).cgIused = (fs.cg b).cgIused := by
    by_cases here : b = c
    · subst here
      simp
    · simp [here]
  constructor
  · intro b below
    rw [(counts b).1, (counts b).2]
    exact tallied.nifree below
  · intro b below
    rw [(counts b).1, (counts b).2]
    exact tallied.ndir below
  · intro b below
    rw [(counts b).1]
    exact tallied.summary below
  · exact tallied.totalNifree
  · exact tallied.totalNdir

theorem Laid.setRotor (laid : Laid fs) (small : i < fs.fsIpg) : Laid (fs.setCg c fun cgp => { cgp with cgIrotor := i }) where
  whole := laid.whole
  groups := laid.groups
  rotor {b} below := by
    by_cases here : b = c
    · subst here
      simpa using small
    · simpa [here] using laid.rotor below
  zero := by
    by_cases here : 0 = c
    · subst here
      simpa using laid.zero
    · simpa [here] using laid.zero

theorem used_setRotor (ipref j : Nat) : (fs.setCg c fun cgp => { cgp with cgIrotor := ipref }).used j ↔ fs.used j := by
  simp only [Fs.used, itog, Fs.setCg]
  by_cases here : j / fs.fsIpg = c
  · subst here
    simp
  · simp [here]

/-- An inode of group `c` that was free has been allocated. -/
structure Grant (fs : Fs) (dir : Nat → Bool) (mode c ino : Nat) (fs' : Fs) : Prop where
  nonzero : ino ≠ 0
  place : ∃ i, i < fs.fsIpg ∧ ino = c * fs.fsIpg + i ∧ isclr (fs.cg c).cgIused i
  took : Took fs fs' ino
  laid : Laid fs'
  tallied : Tallied fs' (update dir ino (isDirectory mode))

theorem gotInode_grant (mode : Nat) (laid : Laid fs) (tallied : Tallied fs dir) (inside : c < fs.fsNcg)
    (small : i < fs.fsIpg) (clear : isclr (fs.cg c).cgIused i) :
    Grant fs dir mode c (gotInode mode c i fs).1 (gotInode mode c i fs).2 := by
  rw [gotInode_eq]
  refine ⟨fun zero => ?_, ⟨i, small, rfl, clear⟩, took_take inside small clear _ _, laid.take _ _ _, ?_⟩
  · have first : c = 0 ∧ i = 0 := by
      refine number_inj small laid.positive ?_
      simpa using zero
    obtain ⟨rfl, rfl⟩ := first
    exact laid.zero clear
  · have taken := tallied.take inside small clear (isDirectory mode)
    simpa using taken

theorem Grant.rotor {ipref : Nat}
    (grant : Grant (fs.setCg c fun cgp => { cgp with cgIrotor := ipref }) dir mode c ino fs') :
    Grant fs dir mode c ino fs' := by
  obtain ⟨i, small, number, clear⟩ := grant.place
  have took := grant.took
  refine ⟨grant.nonzero, ⟨i, small, number, by simpa using clear⟩, ?_, grant.laid, grant.tallied⟩
  refine ⟨took.ncg, took.ipg, took.iMode, took.inside, ?_, fun j => ?_, took.total⟩
  · rw [← used_setRotor ipref]
    exact took.free
  · rw [took.used, used_setRotor]

theorem ialloccg_grants (bad : Nat → Bool) (mode ipref : Nat) (laid : Laid fs) (tallied : Tallied fs dir)
    (inside : c < fs.fsNcg) :
    ∃ result fs', ialloccg bad mode c ipref fs = some (result, fs') ∧
      ((result = 0 ∧ fs' = fs) ∨ Grant fs dir mode c result fs') := by
  unfold ialloccg
  split
  · exact ⟨0, fs, rfl, .inl ⟨rfl, rfl⟩⟩
  · next some =>
    split
    · exact ⟨0, fs, rfl, .inl ⟨rfl, rfl⟩⟩
    · split
      · next prefer => exact ⟨_, _, rfl, .inr (gotInode_grant mode laid tallied inside (Nat.mod_lt _ laid.positive) prefer.2)⟩
      · -- The count is not zero, so that there is a clear bit.
        rw [tallied.summary inside, tallied.nifree inside] at some
        obtain ⟨i, small, clear⟩ := exists_of_count_pos (Nat.pos_of_ne_zero fun zero => some (by rw [zero]; rfl))
        obtain ⟨ino, found, below, free⟩ := scanInodes_found laid.whole (laid.rotor inside) small clear
        rw [found]
        have unchanged : ((fs.setCg c fun cgp => { cgp with cgIrotor := ino }).cg c).cgIused = (fs.cg c).cgIused := by
          simp
        have granted := gotInode_grant mode (laid.setRotor below) (tallied.rotor ino) inside below (unchanged ▸ free)
        exact ⟨_, _, rfl, .inr granted.rotor⟩

/-! ## `hashalloc` -/

theorem rehash_lt {ncg fuel i cg : Nat} (inside : cg < ncg) : ∀ b ∈ rehash ncg fuel i cg, b < ncg := by
  induction fuel generalizing i cg with
  | zero => simp [rehash]
  | succ fuel ih =>
    unfold rehash
    split
    · next more =>
      intro b member
      have next : (if cg + i ≥ ncg then cg + i - ncg else cg + i) < ncg := by
        split <;> omega
      rcases List.mem_cons.mp member with rfl | member
      · exact next
      · exact ih next b member
    · simp

theorem bruteForce_lt {ncg n cg : Nat} (inside : cg < ncg) : ∀ b ∈ bruteForce ncg n cg, b < ncg := by
  induction n generalizing cg with
  | zero => simp [bruteForce]
  | succ n ih =>
    intro b member
    rcases List.mem_cons.mp member with rfl | member
    · exact inside
    · refine ih ?_ b member
      split <;> omega

/-- The search over the groups, for an allocator that changes nothing when it fails. -/
theorem tryAll_found {σ : Type} {allocator : Nat → Nat → σ → Option (Nat × σ)} {good : Nat → Nat → σ → Prop} {s : σ}
    {probes : List (Nat × Nat)}
    (each : ∀ probe ∈ probes, ∃ result t, allocator probe.1 probe.2 s = some (result, t) ∧
      ((result = 0 ∧ t = s) ∨ (result ≠ 0 ∧ good probe.1 result t))) :
    ∃ result t, tryAll allocator probes s = some (result, t) ∧
      ((result = 0 ∧ t = s) ∨ (result ≠ 0 ∧ ∃ probe ∈ probes, good probe.1 result t)) := by
  induction probes with
  | nil => exact ⟨0, s, rfl, .inl ⟨rfl, rfl⟩⟩
  | cons probe probes ih =>
    obtain ⟨result, t, call, outcome⟩ := each probe (by simp)
    rcases outcome with ⟨rfl, rfl⟩ | ⟨nonzero, holds⟩
    · obtain ⟨result, t', rest, outcome⟩ := ih fun other member => each other (by simp [member])
      refine ⟨result, t', by simp [tryAll, call, rest], outcome.imp_right fun ⟨nonzero, other, member, holds⟩ => ?_⟩
      exact ⟨nonzero, other, by simp [member], holds⟩
    · exact ⟨result, t, by simp [tryAll, call, nonzero], .inr ⟨nonzero, probe, by simp, holds⟩⟩

theorem hashalloc_grants (bad : Nat → Bool) (mode ipref : Nat) (laid : Laid fs) (tallied : Tallied fs dir)
    (inside : c < fs.fsNcg) :
    ∃ result fs', hashalloc (ialloccg bad mode) fs.fsNcg c ipref fs = some (result, fs') ∧
      ((result = 0 ∧ fs' = fs) ∨ (result ≠ 0 ∧ Took fs fs' result ∧ Laid fs' ∧
        Tallied fs' (update dir result (isDirectory mode)))) := by
  have each : ∀ probe ∈ (c, ipref) :: (rehash fs.fsNcg fs.fsNcg 1 c ++
        bruteForce fs.fsNcg (fs.fsNcg - 2) ((c + 2) % fs.fsNcg)).map fun cg => (cg, 0),
      ∃ result t, ialloccg bad mode probe.1 probe.2 fs = some (result, t) ∧
        ((result = 0 ∧ t = fs) ∨ (result ≠ 0 ∧ Grant fs dir mode probe.1 result t)) := by
    intro probe member
    have bound : probe.1 < fs.fsNcg := by
      rcases List.mem_cons.mp member with rfl | member
      · exact inside
      · obtain ⟨b, among, rfl⟩ := List.mem_map.mp member
        rcases List.mem_append.mp among with among | among
        · exact rehash_lt inside b among
        · exact bruteForce_lt (Nat.mod_lt _ laid.groups) b among
    obtain ⟨result, t, call, outcome⟩ := ialloccg_grants bad mode probe.2 laid tallied bound
    exact ⟨result, t, call, outcome.imp_right fun grant => ⟨grant.nonzero, grant⟩⟩
  obtain ⟨result, t, search, outcome⟩ := tryAll_found each
  refine ⟨result, t, search, outcome.imp_right fun ⟨nonzero, probe, _, grant⟩ => ?_⟩
  exact ⟨nonzero, grant.took, grant.laid, grant.tallied⟩

/-! ## `ufs_ifree` -/

/-- The group after an inode has been freed. -/
def Cg.give (cgp : Cg) (i : Nat) (directory : Bool) : Cg :=
  { cgp with
    cgIused := clrbit cgp.cgIused i
    cgIrotor := if i < cgp.cgIrotor then i else cgp.cgIrotor
    cgCs := cgp.cgCs.bump (if directory then -1 else 0) 1 }

theorem ufsIfree_eq {bad : Nat → Bool} (range : ino < fs.fsNcg * fs.fsIpg) (readable : bad (itog fs ino) = false)
    (used : fs.used ino) : ufsIfree bad ino mode fs =
      some (fs.retally (itog fs ino) ((fs.cg (itog fs ino)).give (ino % fs.fsIpg) (isDirectory mode))
        (if isDirectory mode then -1 else 0) 1) := by
  have below : ¬ ino ≥ fs.fsIpg * fs.fsNcg := by
    rw [Nat.mul_comm]
    omega
  simp only [Fs.used] at used
  unfold ufsIfree
  by_cases directory : isDirectory mode
  · simp [below, readable, used, Fs.addCs, directory, Cg.give, Csum.bump, Int.sub_eq_add_neg]
  · simp [below, readable, used, Fs.addCs, directory, Cg.give, Csum.bump]

theorem itog_lt (range : ino < fs.fsNcg * fs.fsIpg) : itog fs ino < fs.fsNcg :=
  Nat.div_lt_of_lt_mul (by rwa [Nat.mul_comm])

theorem number_parts (ino : Nat) : itog fs ino * fs.fsIpg + ino % fs.fsIpg = ino := by
  rw [itog, Nat.mul_comm]
  exact Nat.div_add_mod ino fs.fsIpg

/-- What `dir` says of the inode that has become free does not matter. -/
theorem Tallied.give (tallied : Tallied fs dir) (inside : c < fs.fsNcg) (small : i < fs.fsIpg)
    (used : ¬ isclr (fs.cg c).cgIused i) (other : ∀ j, j ≠ c * fs.fsIpg + i → dir' j = dir j) :
    Tallied (fs.retally c ((fs.cg c).give i (dir (c * fs.fsIpg + i))) (if dir (c * fs.fsIpg + i) then -1 else 0) 1) dir' := by
  have elsewhere (j : Nat) (below : j < fs.fsIpg) (differ : j ≠ i) : dir' (c * fs.fsIpg + j) = dir (c * fs.fsIpg + j) :=
    other _ fun same => differ (number_inj below small same).2
  refine tallied.retally inside rfl ?_ ?_ ?_
  · have count : Nat.count (isclr (clrbit (fs.cg c).cgIused i)) fs.fsIpg = Nat.count (isclr (fs.cg c).cgIused) fs.fsIpg + 1 :=
      count_insert small used fun j _ => isclr_clrbit
    simp only [Cg.give, Csum.bump, tallied.nifree inside, count]
    omega
  · simp only [Cg.give, Csum.bump, tallied.ndir inside]
    cases directory : dir (c * fs.fsIpg + i) with
    | true =>
      have count : Nat.count (fun j => ¬ isclr (fs.cg c).cgIused j ∧ dir (c * fs.fsIpg + j)) fs.fsIpg =
          Nat.count (fun j => ¬ isclr (clrbit (fs.cg c).cgIused i) j ∧ dir' (c * fs.fsIpg + j)) fs.fsIpg + 1 := by
        refine count_insert small (by simp [isclr_clrbit]) fun j below => ?_
        rw [isclr_clrbit]
        by_cases same : j = i
        · simp [same, used, directory]
        · rw [elsewhere j below same]
          simp [same]
      rw [if_pos rfl, count]
      omega
    | false =>
      rw [if_neg (by simp), add_zero]
      congr 1
      refine count_same fun j below => ?_
      rw [isclr_clrbit]
      by_cases same : j = i
      · simp [same, directory]
      · rw [elsewhere j below same]
        simp [same]
  · intro b j differ below
    exact other _ fun same => differ (number_inj below small same).1

theorem Laid.give (laid : Laid fs) (small : i < fs.fsIpg) (nonzero : c * fs.fsIpg + i ≠ 0) (directory : Bool) (ndir nifree : Int) :
    Laid (fs.retally c ((fs.cg c).give i directory) ndir nifree) where
  whole := laid.whole
  groups := laid.groups
  rotor {b} below := by
    by_cases here : b = c
    · subst here
      have old := laid.rotor below
      simp only [Fs.retally, Cg.give, update_self]
      split
      · exact small
      · exact old
    · simpa [here] using laid.rotor below
  zero := by
    by_cases here : 0 = c
    · subst here
      have differ : 0 ≠ i := fun same => nonzero (by rw [← same, Nat.zero_mul])
      simp [Cg.give, isclr_clrbit, laid.zero, differ]
    · simpa [here] using laid.zero

theorem ufsIfree_tallied {bad : Nat → Bool} {ino mode : Nat} (laid : Laid fs) (tallied : Tallied fs dir)
    (range : ino < fs.fsNcg * fs.fsIpg) (nonzero : ino ≠ 0) (used : fs.used ino) (counted : dir ino = decide (isDirectory mode))
    (other : ∀ j, j ≠ ino → dir' j = dir j) (unread : bad (itog fs ino) → dir' ino = dir ino) :
    ∃ fs', ufsIfree bad ino mode fs = some fs' ∧ Laid fs' ∧ Tallied fs' dir' ∧ fs'.iMode = fs.iMode := by
  have small : ino % fs.fsIpg < fs.fsIpg := Nat.mod_lt _ laid.positive
  cases readable : bad (itog fs ino) with
  | true =>
    have below : ¬ ino ≥ fs.fsIpg * fs.fsNcg := by
      rw [Nat.mul_comm]
      omega
    have same : dir' = dir := by
      funext j
      by_cases here : j = ino
      · rw [here]
        exact unread readable
      · exact other j here
    exact ⟨fs, by simp [ufsIfree, below, readable], laid, same ▸ tallied, rfl⟩
  | false =>
    refine ⟨_, ufsIfree_eq range readable used, laid.give small (by rwa [number_parts]) _ _ _, ?_, rfl⟩
    have given := (@Tallied.give _ dir dir' _ _) tallied (itog_lt range) small used (by rwa [number_parts])
    rw [number_parts] at given
    simpa [counted] using given

/-! ## `ufs_ialloc` -/

/-- What the calls of `ufs_ialloc` give fits the mode that is asked for: where `ufs_iget` fails no
directory is asked for, and an inode that turns out to be in use is a directory if
one is asked for. -/
def World.Fits (w : World) (mode : Nat) (fs : Fs) : Prop :=
  ∀ ino, ino < fs.fsNcg * fs.fsIpg → ¬ fs.used ino →
    (w.iget ino ≠ 0 → ¬ isDirectory mode ∧ (w.badFree (itog fs ino) → ¬ isDirectory (fs.iMode ino))) ∧
    (w.iget ino = 0 → fs.iMode ino ≠ 0 → (isDirectory (fs.iMode ino) ↔ isDirectory mode))

theorem World.Fits.took {w : World} (fits : w.Fits mode fs) (took : Took fs fs' ino) :
    w.Fits mode fs' := by
  intro j range free
  have old : ¬ fs.used j := fun used => free ((took.used j).mpr (.inr used))
  rw [took.ncg, took.ipg] at range
  have place : itog fs' j = itog fs j := by rw [itog, itog, took.ipg]
  rw [place, took.iMode]
  exact fits j range old

/-- The file system after `ufs_ialloc` and the store of the mode by its caller. -/
def Ialloc.settle (result : Ialloc) (mode : Nat) (fs : Fs) : Fs :=
  match result with
  | .error _ => fs
  | .inode ino => fs.setMode ino mode

theorem Exact.setMode (tallied : Tallied fs (update fs.directory ino (isDirectory mode))) :
    Exact (fs.setMode ino mode) := by
  have same : (fs.setMode ino mode).directory = update fs.directory ino (decide (isDirectory mode)) := by
    funext j
    by_cases here : j = ino
    · subst here
      simp [Fs.setMode]
    · simp [Fs.setMode, here]
  rw [Exact, same]
  exact ⟨tallied.nifree, tallied.ndir, tallied.summary, tallied.totalNifree, tallied.totalNdir⟩

/-- A call of `ufs_ialloc` keeps the counts exact. Each round takes an inode, so that the rounds
are fewer than the free inodes. -/
theorem ufsIallocFrom_exact {w : World} {mode fuel k ipref : Nat} (laid : Laid fs) (exact : Exact fs) (fits : w.Fits mode fs) :
    (∃ result fs', ufsIallocFrom w mode fuel k ipref fs = some (result, fs') ∧ Laid (result.settle mode fs') ∧
      Exact (result.settle mode fs')) ∨
    (ufsIallocFrom w mode fuel k ipref fs = none ∧ fuel ≤ fs.fsCstotal.csNifree) := by
  induction fuel generalizing fs k ipref with
  | zero =>
    refine .inr ⟨rfl, ?_⟩
    rw [exact.totalNifree]
    exact Finset.sum_nonneg fun c member => by
      have inside := Finset.mem_range.mp member
      rw [exact.summary inside, exact.nifree inside]
      exact Int.natCast_nonneg _
  | succ fuel ih =>
    unfold ufsIallocFrom
    split
    · exact .inl ⟨_, fs, rfl, laid, exact⟩
    split
    · exact .inl ⟨_, fs, rfl, laid, exact⟩
    have range : (if ipref ≥ fs.fsNcg * fs.fsIpg then 0 else ipref) < fs.fsNcg * fs.fsIpg := by
      have positive := Nat.mul_pos laid.groups laid.positive
      split <;> omega
    generalize (if ipref ≥ fs.fsNcg * fs.fsIpg then 0 else ipref) = pref at range
    obtain ⟨ino, fs', search, outcome⟩ := hashalloc_grants w.bad mode pref laid exact (itog_lt range)
    simp only [search, Option.bind_eq_bind, Option.bind_some]
    rcases outcome with ⟨rfl, rfl⟩ | ⟨nonzero, took, laid', tallied⟩
    · rw [if_pos rfl]
      exact .inl ⟨_, fs', rfl, laid, exact⟩
    rw [if_neg nonzero]
    have inside := took.inside
    have fit := fits ino inside took.free
    have same : fs'.directory = fs.directory := by
      funext j
      rw [Fs.directory, Fs.directory, took.iMode]
    have used : fs'.used ino := (took.used ino).mpr (.inl rfl)
    split
    · next failed =>
      -- The inode is given back with a mode of zero.
      obtain ⟨plain, unread⟩ := fit.1 failed
      have place : itog fs' ino = itog fs ino := by rw [itog, itog, took.ipg]
      obtain ⟨back, freed, laid, tallied, modes⟩ := (@ufsIfree_tallied fs' _ fs.directory w.badFree ino 0) laid' tallied
        (by rwa [took.ncg, took.ipg]) nonzero used (by
          have zero : ¬ isDirectory 0 := by decide
          simp [plain, zero])
        (fun j other => by rw [update_of_ne other])
        (fun bad => by
          rw [place] at bad
          simp [plain, unread bad])
      refine .inl ⟨.error (w.iget ino), back, by rw [freed]; rfl, laid, ?_⟩
      have kept : back.directory = fs.directory := by
        funext j
        rw [Fs.directory, Fs.directory, modes, took.iMode]
      show Tallied back back.directory
      rw [kept]
      exact tallied
    · next got =>
      rw [not_not] at got
      split
      · next busy =>
        rw [took.iMode] at busy
        have agree : update fs.directory ino (decide (isDirectory mode)) = fs'.directory := by
          rw [same]
          apply update_eq_iff.mpr
          refine ⟨?_, fun _ _ => rfl⟩
          simp [fit.2 got busy]
        have exact' : Exact fs' := by
          rw [Exact, ← agree]
          exact tallied
        have again := (@ih fs' (k + 1) pref) laid' exact' (fits.took took)
        rcases again with found | ⟨none, more⟩
        · exact .inl found
        · refine .inr ⟨none, ?_⟩
          rw [took.total] at more
          push_cast
          omega
      · refine .inl ⟨_, fs', rfl, ?_, ?_⟩
        · exact ⟨laid'.whole, laid'.groups, laid'.rotor, laid'.zero⟩
        · exact Exact.setMode (same ▸ tallied)

end

/-! ## Runs -/

/-- The calls that keep the counts of directories. -/
def Fitting (fs : Fs) : Event → Prop
  | .ialloc _ w _ mode => w.Fits mode fs
  | .ifree bad ino => bad (itog fs ino) → ¬ isDirectory (fs.iMode ino)

theorem step_exact {fs next : Fs} {event : Event} (laid : Laid fs) (exact : Exact fs) (step : Step fs event next)
    (fitting : Fitting fs event) : Laid next ∧ Exact next := by
  cases event with
  | ialloc fuel w ipref mode =>
    rcases (@ufsIallocFrom_exact _ _ _ fuel 0 ipref) laid exact fitting with ⟨result, fs', call, laid', exact'⟩ | ⟨none, _⟩
    · have settled : result.settle mode fs' = next := by
        simp only [Step, apply, ufsIalloc, call, Option.bind_eq_bind, Option.bind_some] at step
        cases result with
        | error => exact Option.some.inj step
        | inode => exact Option.some.inj step
      exact settled ▸ ⟨laid', exact'⟩
    · simp [Step, apply, ufsIalloc, none] at step
  | ifree bad ino =>
    simp only [Step, apply, Option.ite_none_right_eq_some] at step
    obtain ⟨⟨positive, range, used⟩, freed⟩ := step
    have plain : (fs.setMode ino 0).directory ino = false := by
      simp [Fs.setMode, isDirectory, ifmt, ifdir]
    have tallied : Tallied (fs.setMode ino 0) fs.directory :=
      ⟨exact.nifree, exact.ndir, exact.summary, exact.totalNifree, exact.totalNdir⟩
    have laid' : Laid (fs.setMode ino 0) := ⟨laid.whole, laid.groups, laid.rotor, laid.zero⟩
    obtain ⟨fs', call, laid', tallied', modes⟩ := ufsIfree_tallied laid' tallied range positive.ne' used rfl
      (fun j other => by simp [Fs.setMode, other] : ∀ j, j ≠ ino → (fs.setMode ino 0).directory j = fs.directory j)
      (fun unread => by
        rw [plain]
        simpa using fitting unread)
    rw [freed] at call
    obtain rfl := Option.some.inj call
    refine ⟨laid', ?_⟩
    have same : next.directory = (fs.setMode ino 0).directory := by
      funext j
      rw [Fs.directory, Fs.directory, modes]
    rw [Exact, same]
    exact tallied'

/-- One group of eight inodes: the first two are not used for files, and inode 2 is the root. -/
def newfs : Fs where
  fsNcg := 1
  fsIpg := 8
  fsCstotal := ⟨1, 5⟩
  fsCs _ := ⟨1, 5⟩
  cg _ := ⟨⟨1, 5⟩, 0, fun _ => 0x07⟩
  iMode ino := if ino = 2 then 0o040755 else 0

theorem newfs_laid : Laid newfs := ⟨by decide, by decide, fun _ => (by decide : 0 < 8), by decide⟩

theorem newfs_exact : Exact newfs := by
  have only {c : Nat} (below : c < newfs.fsNcg) : c = 0 := Nat.lt_one_iff.mp below
  refine ⟨fun below => ?_, fun below => ?_, fun _ => rfl, by decide, by decide⟩
  · obtain rfl := only below
    decide
  · obtain rfl := only below
    decide

/-- The reading of the new inode fails, for a directory. -/
def failing : World := ⟨fun _ => false, fun _ => false, fun _ => 0, fun _ => 5⟩

def afterFailure : Fs := (apply (.ialloc 2 failing 0 0o040755) newfs).getD newfs

end Svr4.Ufs
