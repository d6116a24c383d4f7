import Svr4.Kernel.Ufs.Quota

/-! Whole runs: what users are charged is what they were given. -/

namespace Svr4.Ufs.Quota

open Function
open Finset (range mem_range sum_congr)

/-! ## Counts -/

section
variable {Blocks : Type} {m m' : Mount Blocks} {cred : Cred} {uid ip change : Nat} {force : Bool} {dq : Dquot}

theorem blockLimits_counts {ncurblocks : Nat} : (blockLimits m cred uid ncurblocks force dq).2.dqCurblocks = dq.dqCurblocks ∧
    (blockLimits m cred uid ncurblocks force dq).2.dqCurfiles = dq.dqCurfiles := by
  simp only [blockLimits]
  (repeat' split) <;> exact ⟨rfl, rfl⟩

theorem raiseBlocks_counts (fits : dq.dqCurblocks + change < 4294967296) :
    (raiseBlocks m cred uid change force dq).2.dqCurfiles = dq.dqCurfiles ∧
    (raiseBlocks m cred uid change force dq).2.dqCurblocks =
      dq.dqCurblocks + if (raiseBlocks m cred uid change force dq).1 = 0 then change else 0 := by
  simp only [raiseBlocks, Nat.mod_eq_of_lt fits]
  split
  · exact ⟨rfl, rfl⟩
  · obtain ⟨blocks, files⟩ := (@blockLimits_counts Blocks m cred uid force { dq with dqFlags := dq.dqFlags ||| dqMod }
      (dq.dqCurblocks + change))
    split
    · exact ⟨files, rfl⟩
    · exact ⟨files, blocks⟩

theorem lowerBlocks_counts (small : dq.dqCurblocks < 2147483648) (charged : change ≤ dq.dqCurblocks) :
    (lowerBlocks (-change) dq).dqCurfiles = dq.dqCurfiles ∧
      (lowerBlocks (-change) dq).dqCurblocks = dq.dqCurblocks - change := by
  refine ⟨rfl, ?_⟩
  simp only [lowerBlocks, toInt, if_pos small]
  rw [if_pos (by omega)]
  omega

theorem fileLimits_counts : (fileLimits m cred uid force dq).2.dqCurblocks = dq.dqCurblocks ∧
    (fileLimits m cred uid force dq).2.dqCurfiles = dq.dqCurfiles := by
  simp only [fileLimits]
  (repeat' split) <;> exact ⟨rfl, rfl⟩

theorem lowerFiles_counts (charged : 0 < dq.dqCurfiles) :
    (lowerFiles dq).dqCurblocks = dq.dqCurblocks ∧ (lowerFiles dq).dqCurfiles = dq.dqCurfiles - 1 :=
  ⟨rfl, if_pos charged.ne'⟩

/-- Nothing but the dquot of one user changes, and its counts are as given. -/
structure Counts (m m' : Mount Blocks) (uid blocks files : Nat) : Prop where
  blocks : (m'.dquot uid).dqCurblocks = blocks
  files : (m'.dquot uid).dqCurfiles = files
  others : ∀ user, user ≠ uid → m'.dquot user = m.dquot user
  rest : m' = { m with dquot := m'.dquot }

theorem Counts.same (m : Mount Blocks) (uid : Nat) : Counts m m uid (m.dquot uid).dqCurblocks (m.dquot uid).dqCurfiles :=
  ⟨rfl, rfl, fun _ _ => rfl, rfl⟩

theorem counts_setDquot (m : Mount Blocks) (uid : Nat) (dq : Dquot) :
    Counts m (m.setDquot uid dq) uid dq.dqCurblocks dq.dqCurfiles :=
  ⟨by simp [Mount.setDquot], by simp [Mount.setDquot], fun _ differ => by simp [Mount.setDquot, differ], rfl⟩

theorem chkdq_raise (owner : (m.inode ip).iDquot = some uid) (fits : (m.dquot uid).dqCurblocks + change < 4294967296) :
    Counts m (chkdq cred ip change force m).2 uid
      ((m.dquot uid).dqCurblocks + if (chkdq cred ip change force m).1 = 0 then change else 0) (m.dquot uid).dqCurfiles := by
  rw [chkdq]
  split <;> rename_i zero
  · obtain rfl : change = 0 := by omega
    exact Counts.same m uid
  · have positive : ¬ (change : Int) < 0 := by omega
    simp only [owner, if_neg positive, Int.toNat_natCast]
    obtain ⟨files, blocks⟩ := (@raiseBlocks_counts Blocks m cred (m.inode ip).iUid change force (m.dquot uid)) fits
    rw [← blocks, ← files]
    exact counts_setDquot ..

theorem chkdq_lower (owner : (m.inode ip).iDquot = some uid) (small : (m.dquot uid).dqCurblocks < 2147483648)
    (charged : change ≤ (m.dquot uid).dqCurblocks) :
    Counts m (chkdq cred ip (-change) force m).2 uid ((m.dquot uid).dqCurblocks - change) (m.dquot uid).dqCurfiles := by
  rw [chkdq]
  split <;> rename_i zero
  · obtain rfl : change = 0 := by omega
    exact Counts.same m uid
  · have negative : -(change : Int) < 0 := by omega
    simp only [owner, if_pos negative]
    obtain ⟨files, blocks⟩ := lowerBlocks_counts small charged
    rw [← blocks, ← files]
    exact counts_setDquot ..

theorem chkiq_raise (enabled : m.mqEnabled = true) (record : m.record uid = true)
    (limited : ¬ ((m.dquot uid).dqFsoftlimit = 0 ∧ (m.dquot uid).dqFhardlimit = 0))
    (fits : (m.dquot uid).dqCurfiles + 1 < 4294967296) :
    Counts m (chkiq cred uid force m).2 uid (m.dquot uid).dqCurblocks
      ((m.dquot uid).dqCurfiles + if (chkiq cred uid force m).1 = 0 then 1 else 0) := by
  have counts {result : Nat × Dquot} (blocks : result.2.dqCurblocks = (m.dquot uid).dqCurblocks)
      (files : result.2.dqCurfiles = (m.dquot uid).dqCurfiles) : Counts m (m.setDquot uid
        (if result.1 = 0 then { result.2 with dqCurfiles := (result.2.dqCurfiles + 1) % 4294967296 } else result.2)) uid
        (m.dquot uid).dqCurblocks ((m.dquot uid).dqCurfiles + if result.1 = 0 then 1 else 0) := by
    split
    · rw [files, Nat.mod_eq_of_lt fits, ← blocks]
      exact counts_setDquot ..
    · rw [← blocks, Nat.add_zero, ← files]
      exact counts_setDquot ..
  simp only [chkiq, enabled, record, not_true_eq_false, if_false, if_neg limited]
  split
  · exact (@counts (0, { m.dquot uid with dqFlags := (m.dquot uid).dqFlags ||| dqMod })) rfl rfl
  · exact counts fileLimits_counts.1 fileLimits_counts.2

theorem chkiqFree_lower (owner : (m.inode ip).iDquot = some uid) (charged : 0 < (m.dquot uid).dqCurfiles) :
    Counts m (chkiqFree ip m) uid (m.dquot uid).dqCurblocks ((m.dquot uid).dqCurfiles - 1) := by
  simp only [chkiqFree, owner]
  obtain ⟨blocks, files⟩ := lowerFiles_counts charged
  rw [← blocks, ← files]
  exact counts_setDquot ..

end

/-! ## Steps -/

section
variable {Blocks : Type} (maps : Allocators Blocks) (nInode : Nat)

/-- The calls with their results. After an allocation the caller adds to `i_blocks`, and
makes a new inode its own. -/
inductive Event where
  | alloc (cred : Cred) (ip bpref size : Nat) (result : Except Nat Nat)
  | realloccg (cred : Cred) (ip bprev bpref osize nsize : Nat) (result : Except Nat Nat)
  | truncate (cred : Cred) (ip : Nat) (pieces : List (Nat × Nat))
  | ialloc (disk : Disk) (cred : Cred) (ipref mode : Nat) (result : Except Nat Nat)
  | inactive (disk : Disk) (ip : Nat)
  | tick (time : Nat)

/-- The units of the pieces that a truncation frees. -/
def units (pieces : List (Nat × Nat)) : Nat := (pieces.map fun piece => btodb piece.2).sum

def Mount.addBlocks (m : Mount Blocks) (ip : Nat) (result : Except Nat Nat) (change : Nat) : Mount Blocks :=
  match result with
  | .error _ => m
  | .ok _ => m.setInode ip { m.inode ip with iBlocks := (m.inode ip).iBlocks + change }

def Step (m : Mount Blocks) (event : Event) (m' : Mount Blocks) : Prop :=
  match event with
  | .alloc cred ip bpref size result =>
    ∃ after, alloc maps cred ip bpref size m = some (result, after) ∧ m' = after.addBlocks ip result (btodb size)
  | .realloccg cred ip bprev bpref osize nsize result =>
    ∃ after, realloccg maps cred ip bprev bpref osize nsize m = some (result, after) ∧
      m' = after.addBlocks ip result (btodb (nsize - osize))
  -- The pieces are those of the file.
  | .truncate cred ip pieces =>
    ip < nInode ∧ units pieces ≤ (m.inode ip).iBlocks ∧
      m' = (chkdq cred ip (-(units pieces : Nat)) false
        ({ m with blocks := pieces.foldl (fun blocks (bno, size) => maps.free bno size blocks) m.blocks }.setInode ip
          { m.inode ip with iBlocks := (m.inode ip).iBlocks - units pieces })).2
  | .ialloc disk cred ipref mode result =>
    ∃ fuel after, ufsIalloc disk cred mode fuel ipref m = some (result, after) ∧
      match result with
      | .error _ => m' = after
      -- `ufs_direnter` panics if the inode has a dquot.
      | .ok ip => (after.inode ip).iDquot = none ∧
          m' = { after with fs := after.fs.setMode ip mode }.setInode ip ⟨cred.crUid, 0, getinoquota ip cred.crUid after⟩
  -- The file was truncated before.
  | .inactive disk ip =>
    ip < nInode ∧ (m.inode ip).iBlocks = 0 ∧
      ∃ fs, ufsIfree disk.badFree ip (m.fs.iMode ip) (m.fs.setMode ip 0) = some fs ∧
        m' = (chkiqFree ip { m with fs := fs }).setInode ip { m.inode ip with iDquot := none }
  | .tick time => m' = { m with hrestime := time }

/-- What a user should be charged for a call, in disk units and in inodes. -/
def charge (m : Mount Blocks) (event : Event) (user : Nat) : Int × Int :=
  match event with
  | .alloc _ ip _ size (.ok _) => (if (m.inode ip).iUid = user then btodb size else 0, 0)
  | .realloccg _ ip _ _ osize nsize (.ok _) => (if (m.inode ip).iUid = user then btodb (nsize - osize) else 0, 0)
  | .truncate _ ip pieces => (if (m.inode ip).iUid = user then -(units pieces : Nat) else 0, 0)
  | .ialloc _ cred _ _ (.ok _) => (0, if cred.crUid = user then 1 else 0)
  | .inactive _ ip => (0, if (m.inode ip).iUid = user then -1 else 0)
  | _ => (0, 0)

/-- What a user should have been charged in a run. -/
def charges (past : List (Mount Blocks × Event)) (user : Nat) : Int × Int :=
  (past.map fun step => charge step.1 step.2 user).sum

theorem charges_cons (m : Mount Blocks) (event : Event) (past : List (Mount Blocks × Event)) (user : Nat) :
    charges ((m, event) :: past) user = charge m event user + charges past user := by
  rw [charges, List.map_cons, List.sum_cons]
  rfl

/-! ## The condition -/

/-- A search has a result other than 0. -/
def Finds {σ : Type} (found : Option (Nat × σ)) : Prop := ∃ result s, found = some (result, s) ∧ result ≠ 0

/-- Where the charge is made, the file has a dquot and the search that follows finds
something. -/
def Sound (m : Mount Blocks) (event : Event) : Prop :=
  match event with
  | .alloc cred ip bpref size _ =>
    let fs := maps.fs m.blocks
    (∀ user, (m.inode ip).iDquot = some user → (m.dquot user).dqCurblocks + btodb size < 2147483648) ∧
    (¬ (size = fs.fsBsize ∧ fs.csNbfree = 0) → ¬ (cred.crUid ≠ 0 ∧ freespace fs ≤ 0) →
      (chkdq cred ip (btodb size) false m).1 = 0 →
      (m.inode ip).iDquot ≠ none ∧ Finds (search maps (preferred maps ip bpref m).1 (preferred maps ip bpref m).2 size m))
  | .realloccg cred ip bprev bpref osize nsize _ =>
    let fs := maps.fs m.blocks
    let cg := bprev / fs.fsFpg
    let (bno, blocks) := maps.fragextend cg bprev osize nsize m.blocks
    let (size, blocks) := request maps nsize blocks
    (∀ user, (m.inode ip).iDquot = some user → (m.dquot user).dqCurblocks + btodb (nsize - osize) < 2147483648) ∧
    (¬ (cred.crUid ≠ 0 ∧ freespace fs ≤ 0) → (chkdq cred ip (btodb (nsize - osize)) false m).1 = 0 →
      (m.inode ip).iDquot ≠ none ∧
        (bno ≠ 0 ∨ Finds (search maps cg (if bpref ≥ fs.fsSize then 0 else bpref) size { m with blocks := blocks })))
  | .truncate _ ip _ => (m.inode ip).iDquot ≠ none
  | .ialloc disk cred ipref mode _ =>
    (m.dquot cred.crUid).dqCurfiles + 1 < 4294967296 ∧
    (m.fs.fsCstotal.csNifree ≠ 0 → (chkiq cred cred.crUid false m).1 = 0 →
      m.mqEnabled = true ∧ m.record cred.crUid = true ∧
      ¬ ((m.dquot cred.crUid).dqFsoftlimit = 0 ∧ (m.dquot cred.crUid).dqFhardlimit = 0) ∧
      ∃ ino fs, searchInode disk ipref mode m.fs = some (ino, fs) ∧ ino ≠ 0 ∧ disk.iget ino = 0 ∧ fs.iMode ino = 0)
  | .inactive _ ip => (m.inode ip).iDquot ≠ none
  | .tick _ => True

end

/-! ## What a call charges -/

section
variable {Blocks : Type} {maps : Allocators Blocks} {m m' : Mount Blocks} {cred : Cred} {ip : Nat} {result : Except Nat Nat}
  {change bpref uid : Nat}

/-- The units are charged to the dquot of the file if the call gives a result, and no inode
changes. -/
structure Paid (m m' : Mount Blocks) (ip change : Nat) (result : Except Nat Nat) : Prop where
  inode : m'.inode = m.inode
  files : ∀ user, (m'.dquot user).dqCurfiles = (m.dquot user).dqCurfiles
  blocks : ∀ user, (m'.dquot user).dqCurblocks = (m.dquot user).dqCurblocks +
    if result.isOk = true ∧ (m.inode ip).iDquot = some user then change else 0
  owned : result.isOk = true → (m.inode ip).iDquot ≠ none

theorem Paid.refused (err change : Nat) : Paid m m ip change (.error err) :=
  ⟨rfl, fun _ => rfl, fun _ => by simp [Except.isOk, Except.toBool], nofun⟩

theorem Paid.later {m'' : Mount Blocks} (paid : Paid m m' ip change result) (dquot : m''.dquot = m'.dquot)
    (inode : m''.inode = m'.inode) : Paid m m'' ip change result :=
  ⟨inode.trans paid.inode, fun user => by rw [dquot, paid.files], fun user => by rw [dquot, paid.blocks], paid.owned⟩

theorem chkdq_paid {change : Nat}
    (fits : ∀ user, (m.inode ip).iDquot = some user → (m.dquot user).dqCurblocks + change < 2147483648) :
    (∀ err, (chkdq cred ip change false m).1 ≠ 0 → Paid m (chkdq cred ip change false m).2 ip change (.error err)) ∧
    (∀ bno, (chkdq cred ip change false m).1 = 0 → (m.inode ip).iDquot ≠ none →
      Paid m (chkdq cred ip change false m).2 ip change (.ok bno)) := by
  cases owner : (m.inode ip).iDquot with
  | none =>
    have none : chkdq cred ip change false m = (0, m) := by
      simp only [chkdq, owner]
      split <;> rfl
    rw [none]
    exact ⟨fun err refused => absurd rfl refused, fun _ _ absent => absurd rfl absent⟩
  | some uid =>
    have counts := (@chkdq_raise Blocks m cred uid ip change false) owner
      (Nat.lt_trans (fits uid owner) (by decide))
    have inode : (chkdq cred ip change false m).2.inode = m.inode := by rw [counts.rest]
    have files (user : Nat) : ((chkdq cred ip change false m).2.dquot user).dqCurfiles = (m.dquot user).dqCurfiles := by
      by_cases here : user = uid
      · rw [here]
        exact counts.files
      · rw [counts.others user here]
    refine ⟨fun err refused => ⟨inode, files, fun user => ?_, nofun⟩,
      fun bno passed _ => ⟨inode, files, fun user => ?_, fun _ => by rw [owner]; simp⟩⟩
    · by_cases here : user = uid
      · rw [here, counts.blocks, if_neg refused]
        simp [Except.isOk, Except.toBool]
      · rw [counts.others user here]
        simp [Except.isOk, Except.toBool]
    · by_cases here : user = uid
      · rw [here, counts.blocks, if_pos passed]
        simp [Except.isOk, Except.toBool, owner]
      · rw [counts.others user here]
        simp [Except.isOk, Except.toBool, owner, Ne.symm here]

theorem search_congr {cg size : Nat} (fs : m'.fs = m.fs) (blocks : m'.blocks = m.blocks) :
    search maps cg bpref size m' = search maps cg bpref size m := by
  rw [search, search, fs, blocks]

theorem chkdq_maps {change : Int} {force : Bool} :
    (chkdq cred ip change force m).2.fs = m.fs ∧ (chkdq cred ip change force m).2.blocks = m.blocks := by
  simp only [chkdq]
  (repeat' split) <;> exact ⟨rfl, rfl⟩

theorem alloc_paid {size : Nat} (sound : Sound maps m (.alloc cred ip bpref size result))
    (call : alloc maps cred ip bpref size m = some (result, m')) : Paid m m' ip (btodb size) result := by
  obtain ⟨fits, finds⟩ := sound
  obtain ⟨refused, granted⟩ := (@chkdq_paid Blocks m cred ip (btodb size)) fits
  obtain ⟨fs, blocks⟩ := (@chkdq_maps Blocks m cred ip (btodb size) false)
  simp only [alloc] at call
  split at call
  · cases call
  split at call
  · cases call
    exact .refused ..
  rename_i whole
  split at call
  · cases call
    exact .refused ..
  rename_i space
  split at call <;> rename_i error
  · cases call
    exact refused _ error
  -- The charge is made; the search finds a piece.
  have passed : (chkdq cred ip (btodb size) false m).1 = 0 := not_not.mp error
  obtain ⟨owned, bno, after, found, positive⟩ := finds whole space passed
  have same : preferred maps ip bpref (chkdq cred ip (btodb size) false m).2 = preferred maps ip bpref m := by
    simp only [preferred, fs, blocks]
  rw [same, search_congr fs blocks, found] at call
  simp only [Option.bind_eq_bind, Option.bind_some, if_pos (Nat.pos_of_ne_zero positive)] at call
  cases call
  exact (granted bno passed owned).later rfl rfl

theorem realloccg_paid {bprev osize nsize : Nat} (sound : Sound maps m (.realloccg cred ip bprev bpref osize nsize result))
    (call : realloccg maps cred ip bprev bpref osize nsize m = some (result, m')) :
    Paid m m' ip (btodb (nsize - osize)) result := by
  obtain ⟨fits, finds⟩ := sound
  obtain ⟨refused, granted⟩ := (@chkdq_paid Blocks m cred ip (btodb (nsize - osize))) fits
  obtain ⟨fs, blocks⟩ := (@chkdq_maps Blocks m cred ip (btodb (nsize - osize)) false)
  simp only [realloccg] at call
  split at call
  · cases call
  split at call
  · cases call
    exact .refused ..
  rename_i space
  split at call
  · cases call
  split at call <;> rename_i error
  · cases call
    exact refused _ error
  have passed : (chkdq cred ip (btodb (nsize - osize)) false m).1 = 0 := not_not.mp error
  obtain ⟨owned, found⟩ := finds space passed
  rw [blocks] at call
  split at call <;> rename_i extended
  · cases call
    exact (granted _ passed owned).later rfl rfl
  · obtain ⟨bno, after, found, positive⟩ := found.resolve_left extended
    have same : search maps (bprev / (maps.fs m.blocks).fsFpg) (if bpref ≥ (maps.fs m.blocks).fsSize then 0 else bpref)
        (request maps nsize (maps.fragextend (bprev / (maps.fs m.blocks).fsFpg) bprev osize nsize m.blocks).2).1
        { (chkdq cred ip (btodb (nsize - osize)) false m).2 with
          blocks := (request maps nsize (maps.fragextend (bprev / (maps.fs m.blocks).fsFpg) bprev osize nsize m.blocks).2).2 } =
        some (bno, after) := by
      simp only [search, fs]
      exact found
    rw [same] at call
    simp only [Option.bind_eq_bind, Option.bind_some, if_pos (Nat.pos_of_ne_zero positive)] at call
    cases call
    exact (granted bno passed owned).later rfl rfl

theorem chkiq_refused {force : Bool} (refused : (chkiq cred uid force m).1 ≠ 0) :
    m.mqEnabled = true ∧ m.record uid = true ∧ ¬ ((m.dquot uid).dqFsoftlimit = 0 ∧ (m.dquot uid).dqFhardlimit = 0) := by
  rw [chkiq] at refused
  split at refused <;> rename_i enabled
  · exact absurd rfl refused
  split at refused <;> rename_i record
  · exact absurd rfl refused
  simp only at refused
  split at refused <;> rename_i limited
  · exact absurd rfl refused
  exact ⟨not_not.mp enabled, not_not.mp record, limited⟩

/-- A file is charged to the user if the call gives an inode, and no inode changes. -/
structure Counted (m m' : Mount Blocks) (uid : Nat) (result : Except Nat Nat) : Prop where
  inode : m'.inode = m.inode
  blocks : ∀ user, (m'.dquot user).dqCurblocks = (m.dquot user).dqCurblocks
  files : ∀ user, (m'.dquot user).dqCurfiles = (m.dquot user).dqCurfiles +
    if result.isOk = true ∧ uid = user then 1 else 0

theorem Counts.counted
    (counts : Counts m m' uid (m.dquot uid).dqCurblocks ((m.dquot uid).dqCurfiles + change))
    (same : change = if result.isOk = true then 1 else 0) : Counted m m' uid result := by
  refine ⟨by rw [counts.rest], fun user => ?_, fun user => ?_⟩
  · by_cases here : user = uid
    · rw [here, counts.blocks]
    · rw [counts.others user here]
  · by_cases here : user = uid
    · rw [here, counts.files, same]
      simp
    · rw [counts.others user here]
      simp [Ne.symm here]

theorem ufsIalloc_counted {disk : Disk} {ipref mode fuel : Nat} (sound : Sound maps m (.ialloc disk cred ipref mode result))
    (call : ufsIalloc disk cred mode fuel ipref m = some (result, m')) : Counted m m' cred.crUid result := by
  obtain ⟨fits, finds⟩ := sound
  cases fuel with
  | zero => cases call
  | succ fuel =>
    simp only [ufsIalloc] at call
    split at call <;> rename_i free
    · cases call
      exact (Counts.same m cred.crUid).counted rfl
    split at call <;> rename_i error
    · cases call
      obtain ⟨enabled, record, limited⟩ := chkiq_refused error
      refine (chkiq_raise enabled record limited fits).counted ?_
      rw [if_neg error]
      rfl
    have passed : (chkiq cred cred.crUid false m).1 = 0 := not_not.mp error
    obtain ⟨enabled, record, limited, ino, fs, found, positive, got, unused⟩ := finds free passed
    have counts := (@chkiq_raise Blocks m cred cred.crUid false) enabled record limited fits
    have same : (chkiq cred cred.crUid false m).2.fs = m.fs := by rw [counts.rest]
    rw [same, found] at call
    simp only [Option.bind_eq_bind, Option.bind_some, if_neg positive, got, unused, ne_eq, not_true_eq_false,
      if_false] at call
    cases call
    have counted : Counted m (chkiq cred cred.crUid false m).2 cred.crUid (.ok ino) :=
      counts.counted (by rw [if_pos passed]; rfl)
    exact ⟨counted.inode, counted.blocks, counted.files⟩

end

/-! ## What the files have -/

section
variable {n ip change : Nat} {weight : Inode → Nat} {inode : Nat → Inode} {value : Inode}

/-- The sum over the inodes below `n`. -/
def total (n : Nat) (weight : Inode → Nat) (inode : Nat → Inode) : Nat := ∑ ip ∈ range n, weight (inode ip)

theorem total_update (inside : ip < n) :
    total n weight (update inode ip value) + weight (inode ip) = total n weight inode + weight value := by
  have member := mem_range.mpr inside
  have others : ∑ p ∈ (range n).erase ip, weight (update inode ip value p) =
      ∑ p ∈ (range n).erase ip, weight (inode p) :=
    sum_congr rfl fun p there => by rw [update_of_ne (Finset.ne_of_mem_erase there)]
  rw [total, total, ← Finset.add_sum_erase _ _ member, ← Finset.add_sum_erase (range n) (fun p => weight (inode p)) member,
    others, update_self]
  omega

theorem total_outside (outside : ¬ ip < n) : total n weight (update inode ip value) = total n weight inode :=
  sum_congr rfl fun p there => by
    have inside := mem_range.mp there
    rw [update_of_ne (by omega)]

theorem total_grow (more : weight value ≤ weight (inode ip) + change) :
    total n weight (update inode ip value) ≤ total n weight inode + change := by
  by_cases inside : ip < n
  · have exact_ := (@total_update n ip weight inode value) inside
    omega
  · rw [total_outside inside]
    omega

theorem total_keep (less : weight value ≤ weight (inode ip)) :
    total n weight (update inode ip value) ≤ total n weight inode := by
  have grown := (@total_grow n ip 0 weight inode value) less
  exact grown

theorem total_least (inside : ip < n) : weight (inode ip) ≤ total n weight inode :=
  Finset.single_le_sum (f := fun p => weight (inode p)) (fun _ _ => Nat.zero_le _) (mem_range.mpr inside)

end

/-- The blocks of an inode that is charged to the user. -/
def Inode.blocksOf (user : Nat) (i : Inode) : Nat := if i.iDquot = some user then i.iBlocks else 0

def Inode.fileOf (user : Nat) (i : Inode) : Nat := if i.iDquot = some user then 1 else 0

/-- Inodes are charged to their owners, and the counts cover them. -/
structure Covered {Blocks : Type} (nInode : Nat) (m : Mount Blocks) : Prop where
  owner : ∀ ip user, (m.inode ip).iDquot = some user → (m.inode ip).iUid = user
  blocks : ∀ user, total nInode (Inode.blocksOf user) m.inode ≤ (m.dquot user).dqCurblocks
  files : ∀ user, total nInode (Inode.fileOf user) m.inode ≤ (m.dquot user).dqCurfiles
  small : ∀ user, (m.dquot user).dqCurblocks < 2147483648

/-- The counts changed by what the user is charged for the call. -/
def Charged {Blocks : Type} (m m' : Mount Blocks) (event : Event) : Prop := ∀ user,
  ((m'.dquot user).dqCurblocks : Int) = (m.dquot user).dqCurblocks + (charge m event user).1 ∧
  ((m'.dquot user).dqCurfiles : Int) = (m.dquot user).dqCurfiles + (charge m event user).2

section
variable {Blocks : Type} {maps : Allocators Blocks} {nInode : Nat} {m m' after : Mount Blocks} {cred : Cred} {ip change : Nat}
  {result : Except Nat Nat}

section
variable (covered : Covered nInode m) {disk : Disk}
include covered

theorem Covered.owner_iff (owned : (m.inode ip).iDquot ≠ none) (user : Nat) :
    (m.inode ip).iDquot = some user ↔ (m.inode ip).iUid = user := by
  constructor
  · exact covered.owner ip user
  · intro same
    obtain ⟨other, found⟩ := Option.ne_none_iff_exists'.mp owned
    rw [← same, covered.owner ip other found, found]

/-- A call of `alloc` or `realloccg`. -/
theorem Covered.paid (paid : Paid m after ip change result)
    (fits : ∀ user, (m.inode ip).iDquot = some user → (m.dquot user).dqCurblocks + change < 2147483648) :
    Covered nInode (after.addBlocks ip result change) ∧ (after.addBlocks ip result change).dquot = after.dquot := by
  have dquot : (after.addBlocks ip result change).dquot = after.dquot := by
    cases result <;> rfl
  have small (user : Nat) : (after.dquot user).dqCurblocks < 2147483648 := by
    rw [paid.blocks]
    split <;> rename_i charged
    · exact fits user charged.2
    · exact covered.small user
  cases result with
  | error err =>
    refine ⟨⟨fun p user => ?_, fun user => ?_, fun user => ?_, small⟩, dquot⟩
    · rw [show (after.addBlocks ip (.error err) change).inode = m.inode from paid.inode]
      exact covered.owner p user
    · rw [show (after.addBlocks ip (.error err) change).inode = m.inode from paid.inode, dquot, paid.blocks]
      exact Nat.le_trans (covered.blocks user) (Nat.le_add_right ..)
    · rw [show (after.addBlocks ip (.error err) change).inode = m.inode from paid.inode, dquot, paid.files]
      exact covered.files user
  | ok bno =>
    have inode : (after.addBlocks ip (.ok bno) change).inode =
        update m.inode ip { m.inode ip with iBlocks := (m.inode ip).iBlocks + change } := by
      simp only [Mount.addBlocks, Mount.setInode, paid.inode]
    refine ⟨⟨fun p user => ?_, fun user => ?_, fun user => ?_, small⟩, dquot⟩
    · rw [inode]
      by_cases here : p = ip
      · subst here
        rw [update_self]
        exact covered.owner p user
      · rw [update_of_ne here]
        exact covered.owner p user
    · rw [inode, dquot, paid.blocks]
      have most := covered.blocks user
      refine Nat.le_trans (total_grow ?_) (Nat.add_le_add_right most _)
      simp only [Inode.blocksOf, Except.isOk, Except.toBool, true_and]
      split <;> omega
    · rw [inode, dquot, paid.files]
      exact Nat.le_trans (total_keep le_rfl) (covered.files user)

theorem Covered.charged (paid : Paid m after ip change result) (user : Nat) :
    ((after.dquot user).dqCurblocks : Int) = (m.dquot user).dqCurblocks +
      (if result.isOk = true then if (m.inode ip).iUid = user then change else 0 else 0 : Int) := by
  rw [paid.blocks]
  by_cases ok : result.isOk = true
  · have owner := covered.owner_iff (paid.owned ok) user
    simp only [ok, true_and, if_true, owner]
    split <;> simp
  · simp [ok]

theorem Covered.alloc {bpref size : Nat}
    (step : Step maps nInode m (.alloc cred ip bpref size result) m') (sound : Sound maps m (.alloc cred ip bpref size result)) :
    Covered nInode m' ∧ Charged m m' (.alloc cred ip bpref size result) := by
  obtain ⟨after, call, rfl⟩ := step
  have paid := alloc_paid sound call
  obtain ⟨covered', dquot⟩ := covered.paid paid sound.1
  refine ⟨covered', fun user => ?_⟩
  rw [dquot, covered.charged paid user, paid.files user]
  cases result <;> simp [charge, Except.isOk, Except.toBool]

theorem Covered.realloccg {bprev bpref osize nsize : Nat}
    (step : Step maps nInode m (.realloccg cred ip bprev bpref osize nsize result) m')
    (sound : Sound maps m (.realloccg cred ip bprev bpref osize nsize result)) :
    Covered nInode m' ∧ Charged m m' (.realloccg cred ip bprev bpref osize nsize result) := by
  obtain ⟨after, call, rfl⟩ := step
  have paid := realloccg_paid sound call
  obtain ⟨covered', dquot⟩ := covered.paid paid sound.1
  refine ⟨covered', fun user => ?_⟩
  rw [dquot, covered.charged paid user, paid.files user]
  cases result <;> simp [charge, Except.isOk, Except.toBool]

theorem Covered.truncate {pieces : List (Nat × Nat)}
    (step : Step maps nInode m (.truncate cred ip pieces) m') (sound : Sound maps m (.truncate cred ip pieces)) :
    Covered nInode m' ∧ Charged m m' (.truncate cred ip pieces) := by
  obtain ⟨inside, held, rfl⟩ := step
  obtain ⟨uid, owner⟩ := Option.ne_none_iff_exists'.mp sound
  generalize freed : ({ m with blocks := pieces.foldl (fun blocks (bno, size) => maps.free bno size blocks) m.blocks }.setInode
    ip { m.inode ip with iBlocks := (m.inode ip).iBlocks - units pieces }) = less
  have inode : less.inode = update m.inode ip { m.inode ip with iBlocks := (m.inode ip).iBlocks - units pieces } := by
    rw [← freed]
    rfl
  have dquot : less.dquot = m.dquot := by
    rw [← freed]
    rfl
  have mine : (less.inode ip).iDquot = some uid := by
    rw [inode, update_self]
    exact owner
  -- The count covers what the file has.
  have has : (m.inode ip).iBlocks ≤ (m.dquot uid).dqCurblocks := by
    have least := (@total_least nInode ip (Inode.blocksOf uid) m.inode) inside
    rw [Inode.blocksOf, if_pos owner] at least
    exact least.trans (covered.blocks uid)
  have counts := (@chkdq_lower Blocks less cred uid ip (units pieces) false) mine
    (by rw [dquot]; exact covered.small uid) (by rw [dquot]; exact held.trans has)
  rw [dquot] at counts
  have same : (chkdq cred ip (-(units pieces : Nat)) false less).2.inode = less.inode := by rw [counts.rest]
  generalize (chkdq cred ip (-(units pieces : Nat)) false less).2 = done at counts same
  have files (user : Nat) : (done.dquot user).dqCurfiles = (m.dquot user).dqCurfiles := by
    by_cases here : user = uid
    · rw [here, counts.files]
    · rw [counts.others user here, dquot]
  have blocks (user : Nat) : (done.dquot user).dqCurblocks = (m.dquot user).dqCurblocks -
      if user = uid then units pieces else 0 := by
    by_cases here : user = uid
    · rw [if_pos here, here, counts.blocks]
    · rw [if_neg here, counts.others user here, dquot, Nat.sub_zero]
  refine ⟨⟨fun p user => ?_, fun user => ?_, fun user => ?_, fun user => ?_⟩, fun user => ⟨?_, ?_⟩⟩
  · rw [same, inode]
    by_cases here : p = ip
    · subst here
      rw [update_self]
      exact covered.owner p user
    · rw [update_of_ne here]
      exact covered.owner p user
  · rw [same, inode, blocks]
    have most := covered.blocks user
    have changed := (@total_update nInode ip (Inode.blocksOf user) m.inode
      { m.inode ip with iBlocks := (m.inode ip).iBlocks - units pieces }) inside
    by_cases here : user = uid
    · subst here
      have before : (m.inode ip).blocksOf user = (m.inode ip).iBlocks := if_pos owner
      have now : Inode.blocksOf user { m.inode ip with iBlocks := (m.inode ip).iBlocks - units pieces } =
          (m.inode ip).iBlocks - units pieces := if_pos owner
      rw [before, now] at changed
      rw [if_pos rfl]
      omega
    · rw [if_neg here]
      refine Nat.le_trans (total_keep ?_) most
      have other : ¬ (m.inode ip).iDquot = some user := fun same => here (Option.some.inj (same.symm.trans owner))
      simp [Inode.blocksOf, other]
  · rw [same, inode, files]
    exact Nat.le_trans (total_keep le_rfl) (covered.files user)
  · rw [blocks]
    exact Nat.lt_of_le_of_lt (Nat.sub_le ..) (covered.small user)
  · rw [blocks]
    simp only [charge, covered.owner ip uid owner]
    by_cases here : user = uid
    · subst here
      simp only [if_true]
      omega
    · simp [here, Ne.symm here]
  · rw [files]
    simp [charge]

theorem Covered.ialloc {ipref mode : Nat}
    (step : Step maps nInode m (.ialloc disk cred ipref mode result) m')
    (sound : Sound maps m (.ialloc disk cred ipref mode result)) :
    Covered nInode m' ∧ Charged m m' (.ialloc disk cred ipref mode result) := by
  obtain ⟨fuel, after, call, rest⟩ := step
  have counted := ufsIalloc_counted sound call
  cases result with
  | error err =>
    obtain rfl := rest
    have files (user : Nat) : (m'.dquot user).dqCurfiles = (m.dquot user).dqCurfiles := by
      simp [counted.files, Except.isOk, Except.toBool]
    refine ⟨⟨fun p user => ?_, fun user => ?_, fun user => ?_, fun user => ?_⟩, fun user => ?_⟩
    · rw [counted.inode]
      exact covered.owner p user
    · rw [counted.inode, counted.blocks]
      exact covered.blocks user
    · rw [counted.inode, files]
      exact covered.files user
    · rw [counted.blocks]
      exact covered.small user
    · rw [counted.blocks, files]
      simp [charge]
  | ok ip =>
    obtain ⟨fresh, rfl⟩ := rest
    rw [counted.inode] at fresh
    have inode : ({ after with fs := after.fs.setMode ip mode }.setInode ip
        ⟨cred.crUid, 0, getinoquota ip cred.crUid after⟩).inode =
        update m.inode ip ⟨cred.crUid, 0, getinoquota ip cred.crUid after⟩ := by
      simp only [Mount.setInode, counted.inode]
    have quota {user : Nat} (some : getinoquota ip cred.crUid after = some user) : cred.crUid = user := by
      simp only [getinoquota] at some
      (repeat' split at some) <;> first | cases some; done | exact Option.some.inj some
    refine ⟨⟨fun p user => ?_, fun user => ?_, fun user => ?_, fun user => ?_⟩, fun user => ?_⟩
    · rw [inode]
      by_cases here : p = ip
      · subst here
        rw [update_self]
        exact quota
      · rw [update_of_ne here]
        exact covered.owner p user
    · rw [inode]
      refine Nat.le_trans (total_keep ?_) (Nat.le_trans (covered.blocks user) (Nat.le_of_eq (counted.blocks user).symm))
      simp [Inode.blocksOf]
    · rw [inode]
      have now : (after.dquot user).dqCurfiles = (m.dquot user).dqCurfiles + if cred.crUid = user then 1 else 0 := by
        simp [counted.files, Except.isOk, Except.toBool]
      refine Nat.le_trans (total_grow ?_) (Nat.le_trans (Nat.add_le_add_right (covered.files user) _) (Nat.le_of_eq now.symm))
      simp only [Inode.fileOf, fresh]
      split <;> rename_i mine
      · rw [if_pos (quota mine)]
        exact Nat.le_add_left ..
      · exact Nat.zero_le _
    · change (after.dquot user).dqCurblocks < 2147483648
      rw [counted.blocks]
      exact covered.small user
    · change ((after.dquot user).dqCurblocks : Int) = _ ∧ ((after.dquot user).dqCurfiles : Int) = _
      rw [counted.blocks, counted.files]
      refine ⟨by simp [charge], ?_⟩
      simp only [charge, Except.isOk, Except.toBool, true_and]
      split <;> simp

theorem Covered.inactive (step : Step maps nInode m (.inactive disk ip) m')
    (sound : Sound maps m (.inactive disk ip)) : Covered nInode m' ∧ Charged m m' (.inactive disk ip) := by
  obtain ⟨inside, -, fs, -, rfl⟩ := step
  obtain ⟨uid, owner⟩ := Option.ne_none_iff_exists'.mp sound
  have least := (@total_least nInode ip (Inode.fileOf uid) m.inode) inside
  have mine : (m.inode ip).fileOf uid = 1 := if_pos owner
  have most := covered.files uid
  have counts := (@chkiqFree_lower Blocks { m with fs := fs } uid ip) owner (by change 0 < (m.dquot uid).dqCurfiles; omega)
  have dquot : ((chkiqFree ip { m with fs := fs }).setInode ip { m.inode ip with iDquot := none }).dquot =
      (chkiqFree ip { m with fs := fs }).dquot := rfl
  have inode : ((chkiqFree ip { m with fs := fs }).setInode ip { m.inode ip with iDquot := none }).inode =
      update m.inode ip { m.inode ip with iDquot := none } := by
    rw [Mount.setInode, counts.rest]
  generalize (chkiqFree ip { m with fs := fs }).setInode ip { m.inode ip with iDquot := none } = done at dquot inode
  have blocks (user : Nat) : (done.dquot user).dqCurblocks = (m.dquot user).dqCurblocks := by
    rw [dquot]
    by_cases here : user = uid
    · rw [here, counts.blocks]
    · rw [counts.others user here]
  have files (user : Nat) : (done.dquot user).dqCurfiles = (m.dquot user).dqCurfiles - if user = uid then 1 else 0 := by
    rw [dquot]
    by_cases here : user = uid
    · rw [here, counts.files, if_pos rfl]
    · rw [counts.others user here, if_neg here, Nat.sub_zero]
  refine ⟨⟨fun p user => ?_, fun user => ?_, fun user => ?_, fun user => ?_⟩, fun user => ⟨?_, ?_⟩⟩
  · rw [inode]
    by_cases here : p = ip
    · subst here
      rw [update_self]
      exact nofun
    · rw [update_of_ne here]
      exact covered.owner p user
  · rw [inode, blocks]
    exact Nat.le_trans (total_keep (by simp [Inode.blocksOf])) (covered.blocks user)
  · rw [inode, files]
    by_cases here : user = uid
    · subst here
      have changed := (@total_update nInode ip (Inode.fileOf user) m.inode { m.inode ip with iDquot := none }) inside
      have gone : Inode.fileOf user { m.inode ip with iDquot := none } = 0 := if_neg nofun
      rw [mine, gone] at changed
      rw [if_pos rfl]
      omega
    · rw [if_neg here]
      exact Nat.le_trans (total_keep (by simp [Inode.fileOf])) (covered.files user)
  · rw [blocks]
    exact covered.small user
  · rw [blocks]
    simp [charge]
  · rw [files]
    simp only [charge, covered.owner ip uid owner]
    by_cases here : user = uid
    · subst here
      simp only [if_true]
      omega
    · simp [here, Ne.symm here]

end

theorem Covered.step {event : Event} (covered : Covered nInode m) (step : Step maps nInode m event m')
    (sound : Sound maps m event) : Covered nInode m' ∧ Charged m m' event := by
  cases event with
  | alloc cred ip bpref size result => exact covered.alloc step sound
  | realloccg cred ip bprev bpref osize nsize result => exact covered.realloccg step sound
  | truncate cred ip pieces => exact covered.truncate step sound
  | ialloc disk cred ipref mode result => exact covered.ialloc step sound
  | inactive disk ip => exact covered.inactive step sound
  | tick time =>
    obtain rfl := step
    exact ⟨⟨covered.owner, covered.blocks, covered.files, covered.small⟩, fun user => by simp [charge]⟩

/-! ## Runs -/

end

/-- Blocks of 8192 bytes in fragments of 1024, and no free block: of the free fragments no
two are beside each other, so that a piece of one is found and a larger one is not. -/
def scattered : Allocators Unit where
  fs _ := ⟨8192, 1024, 8, 1000, 1000, 900, 0, fsOpttime, 0, 10⟩
  setOptim _ blocks := blocks
  alloccg size _ _ blocks := some (if size = 1024 then 100 else 0, blocks)
  fragextend _ _ _ _ blocks := (0, blocks)
  free _ _ blocks := blocks

/-- One cylinder group, and a file of user 1, who may have 100 units. -/
def mounted : Mount Unit where
  dquot _ := ⟨0, 100, 0, 0, 10, 0, 1, 0, 0⟩
  inode ip := ⟨1, 0, if ip = 4 then some 1 else none⟩
  mqEnabled := true
  record _ := true
  vfsQinod := 3
  hrestime := 0
  vfsBtimelimit := 0
  vfsFtimelimit := 0
  fs := ⟨1, 32, ⟨0, 0⟩, fun _ => ⟨0, 0⟩, fun _ => ⟨⟨0, 0⟩, 0, fun _ => 0⟩, fun _ => 0⟩
  blocks := ()

/-- After a call of `alloc` for the file. -/
def charged (size : Nat) (result : Except Nat Nat) : Mount Unit :=
  (((alloc scattered ⟨1, 1⟩ 4 0 size mounted).getD (.error 0, mounted)).2).addBlocks 4 result (btodb size)

theorem mounted_covered : Covered 8 mounted := by
  refine ⟨fun ip user owner => ?_, fun user => ?_, fun user => ?_, fun user => by simp [mounted]⟩
  · simp only [mounted] at owner ⊢
    split at owner
    · exact Option.some.inj owner
    · cases owner
  · simp [total, Inode.blocksOf, mounted]
  · have each (ip : Nat) : (mounted.inode ip).fileOf user ≤ if ip = 4 then 1 else 0 := by
      by_cases here : ip = 4
      · rw [if_pos here, Inode.fileOf]
        split <;> omega
      · simp [Inode.fileOf, mounted, here]
    calc total 8 (Inode.fileOf user) mounted.inode ≤ ∑ ip ∈ range 8, (if ip = 4 then 1 else 0) :=
          Finset.sum_le_sum fun ip _ => each ip
      _ = 1 := rfl

end Svr4.Ufs.Quota
