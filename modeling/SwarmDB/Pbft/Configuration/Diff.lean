import SwarmDB.Pbft.Configuration.Peers

namespace SwarmDB.Pbft

namespace Configuration

-- The peers that only the other configuration has, and those that only this one has.
def diff (config other : Configuration) : List PeerAddress × List PeerAddress :=
  (other.peers.filter fun p => !config.peers.any (PeerAddress.same p),
    config.peers.filter fun p => !other.peers.any (PeerAddress.same p))

section Patching

-- One call for each peer, and whether all of them have succeeded.
def each (call : Configuration → PeerAddress → Bool × Configuration) : List PeerAddress → Configuration →
    Bool × Configuration
  | [], config => (true, config)
  | peer :: rest, config =>
    let first := call config peer
    let later := each call rest first.2
    (first.1 && later.1, later.2)

variable (codec : Codec)

-- Removing the peers of one list from a copy, and adding those of another one.
def removeEach (removed : List PeerAddress) (config : Configuration) : Bool × Configuration :=
  each (fun config peer => config.removePeer codec peer) removed config

def addEach (added : List PeerAddress) (config : Configuration) : Bool × Configuration :=
  each (fun config peer => config.addPeer codec peer) added config

-- The vectors come in the order of an unordered set.
def DiffExact (config other : Configuration) : Prop :=
  ∀ removed added, removed.Perm (config.diff other).2 → added.Perm (config.diff other).1 →
    (removeEach codec removed config).1 = true ∧
    (addEach codec added (removeEach codec removed config).2).1 = true ∧
    (addEach codec added (removeEach codec removed config).2).2.cachedHash = other.cachedHash

theorem rebuilt_hash_perm {peers others : List PeerAddress} (h : Orderly peers) (hperm : peers.Perm others) :
    (rebuilt codec peers).cachedHash = (rebuilt codec others).cachedHash := by
  have hsorted : (rebuilt codec peers).sortedPeers = (rebuilt codec others).sortedPeers := by
    apply sorted_unique (cacheSortedPeers_increasing codec h) (cacheSortedPeers_increasing codec (h.perm hperm.symm))
    intro peer
    rw [(cacheSortedPeers_perm codec _).mem_iff, (cacheSortedPeers_perm codec _).mem_iff]
    exact hperm.mem_iff
  exact createHash_congr codec hsorted

variable {codec} {config other : Configuration} {peers added removed : List PeerAddress} {peer p q : PeerAddress}

theorem Orderly.same_iff_eq (h : Orderly peers) (hp : p ∈ peers) (hq : q ∈ peers) :
    PeerAddress.same p q = true ↔ p = q := by
  constructor
  · intro hsame
    exact h.eq_of_conflict hp hq (conflict_of_same hsame)
  · rintro rfl
    exact same_self p

theorem removeEach_cons : removeEach codec (peer :: removed) config =
    ((config.removePeer codec peer).1 && (removeEach codec removed (config.removePeer codec peer).2).1,
      (removeEach codec removed (config.removePeer codec peer).2).2) := rfl

theorem addEach_cons : addEach codec (peer :: added) config =
    ((config.addPeer codec peer).1 && (addEach codec added (config.addPeer codec peer).2).1,
      (addEach codec added (config.addPeer codec peer).2).2) := rfl

-- What is there can be removed.
theorem removeEach_run (h : Orderly config.peers) (hsub : ∀ peer ∈ removed, peer ∈ config.peers)
    (hnodup : removed.Nodup) : removeEach codec removed config =
      (true, if removed = [] then config else rebuilt codec (config.peers.filter fun peer => peer ∉ removed)) := by
  induction removed generalizing config with
  | nil => rfl
  | cons first rest ih =>
      obtain ⟨hfirst, hrest⟩ := List.forall_mem_cons.mp hsub
      obtain ⟨hnew, hnodup'⟩ := List.nodup_cons.mp hnodup
      have hpresent : config.peers.any (PeerAddress.same first) = true :=
        List.any_eq_true.mpr ⟨first, hfirst, same_self first⟩
      have hfilter : (config.peers.filter fun p => !PeerAddress.same first p) =
          config.peers.filter fun p => p ≠ first := by
        apply List.filter_congr
        intro p hp
        have hsame := h.same_iff_eq hfirst hp
        by_cases heq : first = p
        · subst heq
          simp
        · simp [mt hsame.mp heq, Ne.symm heq]
      have hleft : ∀ peer ∈ rest, peer ∈ config.peers.filter fun p => p ≠ first := by
        intro peer hpeer
        refine List.mem_filter.mpr ⟨hrest peer hpeer, decide_eq_true ?_⟩
        rintro rfl
        exact hnew hpeer
      have hrun := removePeer_present codec hpresent
      rw [hfilter, cacheSortedPeers_eq] at hrun
      have hlater := @ih (rebuilt codec (config.peers.filter fun p => p ≠ first))
        (h.sublist List.filter_sublist) hleft hnodup'
      have hpeers : ((config.peers.filter fun p => p ≠ first).filter fun peer => peer ∉ rest) =
          config.peers.filter fun peer => peer ∉ first :: rest := by
        rw [List.filter_filter]
        apply List.filter_congr
        intro p _
        simp [Bool.and_comm]
      rw [removeEach_cons, hrun, hlater, if_neg (List.cons_ne_nil first rest), ← hpeers]
      by_cases hlast : rest = []
      · simp [hlast]
      · rw [if_neg hlast]
        rfl

-- The additions succeed where nothing conflicts in the end.
theorem addEach_iff (h : Orderly config.peers) :
    (addEach codec added config).1 = true ↔ Orderly (config.peers ++ added) := by
  induction added generalizing config with
  | nil => simpa [addEach, each] using h
  | cons first rest ih =>
      rw [addEach_cons, Bool.and_eq_true, List.append_cons]
      by_cases hfits : Fits config.peers first
      · have hrun := addPeer_fits codec hfits
        have horderly := orderly_concat.mpr ⟨h, hfits⟩
        rw [hrun]
        exact (and_iff_right rfl).trans (ih horderly)
      · rw [addPeer_unfit codec hfits]
        refine iff_of_false (fun hboth => Bool.false_ne_true hboth.1) ?_
        intro hall
        have hfirst := hall.sublist (List.sublist_append_left (config.peers ++ [first]) rest)
        exact hfits (orderly_concat.mp hfirst).2

theorem addEach_run (hall : Orderly (config.peers ++ added)) :
    (addEach codec added config).2 = if added = [] then config else rebuilt codec (config.peers ++ added) := by
  induction added generalizing config with
  | nil => rfl
  | cons first rest ih =>
      rw [List.append_cons] at hall
      have hfirst := hall.sublist (List.sublist_append_left (config.peers ++ [first]) rest)
      have hrun := addPeer_fits codec (orderly_concat.mp hfirst).2
      rw [cacheSortedPeers_eq] at hrun
      have hlater := @ih (rebuilt codec (config.peers ++ [first])) hall
      rw [addEach_cons, hrun, if_neg (List.cons_ne_nil first rest), hlater]
      by_cases hlast : rest = []
      · simp [hlast]
      · rw [if_neg hlast, rebuilt_peers, List.append_assoc, List.singleton_append]

end Patching

section Exactness

variable {codec : Codec} {config other : Configuration} {added removed : List PeerAddress} {p q : PeerAddress}

-- The peers that both have, as this one has them, and those that only the other one has.
def merged (config other : Configuration) : List PeerAddress :=
  (config.peers.filter fun p => other.peers.any (PeerAddress.same p)) ++ (config.diff other).1

-- None of the peers that come has the name of one that stays.
def NamesFree (config other : Configuration) : Prop :=
  ∀ p ∈ config.peers, other.peers.any (PeerAddress.same p) = true → ∀ q ∈ (config.diff other).1, p.name ≠ q.name

-- The peers that both have are called the same in both.
def NamesAgree (config other : Configuration) : Prop :=
  ∀ p ∈ config.peers, ∀ q ∈ other.peers, PeerAddress.same p q = true → p.name = q.name

-- Neither has a peer that the other has not.
def SameSets (config other : Configuration) : Prop :=
  (∀ p ∈ config.peers, ∃ q ∈ other.peers, PeerAddress.same p q = true) ∧
    ∀ q ∈ other.peers, ∃ p ∈ config.peers, PeerAddress.same p q = true

-- The hash of these peers is the one that the other configuration has. Where there is nothing to change,
-- it has to be the hash that is there.
def HashAgrees (codec : Codec) (config other : Configuration) (peers : List PeerAddress) : Prop :=
  (SameSets config other → config.cachedHash = other.cachedHash) ∧
    (¬SameSets config other → (rebuilt codec peers).cachedHash = other.cachedHash)

theorem same_comm (p q : PeerAddress) : PeerAddress.same p q = PeerAddress.same q p :=
  Bool.eq_iff_iff.mpr ⟨same_symm, same_symm⟩

theorem mem_added :
    q ∈ (config.diff other).1 ↔ q ∈ other.peers ∧ ∀ p ∈ config.peers, ¬PeerAddress.same q p = true := by
  simp [diff]

theorem mem_removed :
    p ∈ (config.diff other).2 ↔ p ∈ config.peers ∧ ∀ q ∈ other.peers, ¬PeerAddress.same p q = true := by
  simp [diff]

theorem sameSets_iff : SameSets config other ↔ (config.diff other).2 = [] ∧ (config.diff other).1 = [] := by
  simp only [List.eq_nil_iff_forall_not_mem, mem_removed, mem_added, SameSets]
  constructor
  · rintro ⟨hmine, htheirs⟩
    refine ⟨?_, ?_⟩
    · rintro p ⟨hp, hnone⟩
      obtain ⟨q, hq, hsame⟩ := hmine p hp
      exact hnone q hq hsame
    · rintro q ⟨hq, hnone⟩
      obtain ⟨p, hp, hsame⟩ := htheirs q hq
      exact hnone p hp (same_comm q p ▸ hsame)
  · rintro ⟨hremoved, hadded⟩
    refine ⟨?_, ?_⟩
    · intro p hp
      by_contra hnone
      exact hremoved p ⟨hp, fun q hq hsame => hnone ⟨q, hq, hsame⟩⟩
    · intro q hq
      by_contra hnone
      exact hadded q ⟨hq, fun p hp hsame => hnone ⟨p, hp, same_comm p q ▸ hsame⟩⟩

-- A peer that stays is, but for its name, one of the others, and that one has no conflict with those that come.
theorem conflict_merged (hother : Orderly other.peers) (hp : other.peers.any (PeerAddress.same p) = true)
    (hmine : p ∈ config.peers) (hq : q ∈ (config.diff other).1) : Conflict p q ↔ p.name = q.name := by
  constructor
  · intro hconflict
    obtain ⟨twin, htwin, hsame⟩ := List.any_eq_true.mp hp
    obtain ⟨hq', hnone⟩ := mem_added.mp hq
    obtain ⟨hhost, hport, hhttp, huuid⟩ := same_iff.mp hsame
    have hne : twin ≠ q := by
      rintro rfl
      exact hnone p hmine (same_comm p twin ▸ hsame)
    have hapart : ¬Conflict twin q := fun h => hne (hother.eq_of_conflict htwin hq' h)
    rcases hconflict with hsameUuid | hname | ⟨hsameHost, hports⟩
    · exact absurd (Or.inl (huuid ▸ hsameUuid)) hapart
    · exact hname
    · refine absurd (Or.inr (Or.inr ⟨hhost ▸ hsameHost, ?_⟩)) hapart
      rw [← hport, ← hhttp]
      exact hports
  · intro hname
    exact Or.inr (Or.inl hname)

theorem orderly_merged (h : Orderly config.peers) (hother : Orderly other.peers) :
    Orderly (merged config other) ↔ NamesFree config other := by
  have hkept : Orderly (config.peers.filter fun p => other.peers.any (PeerAddress.same p)) :=
    h.sublist List.filter_sublist
  have hadded : Orderly (config.diff other).1 := hother.sublist List.filter_sublist
  constructor
  · intro hmerged p hp hstays q hq hname
    have hapart := (List.pairwise_append.mp hmerged.apart).2.2 p (List.mem_filter.mpr ⟨hp, hstays⟩) q hq
    exact hapart (Or.inr (Or.inl hname))
  · intro hfree
    refine ⟨?_, List.pairwise_append.mpr ⟨hkept.apart, hadded.apart, ?_⟩⟩
    · intro peer hpeer
      rcases List.mem_append.mp hpeer with hpeer | hpeer
      · exact hkept.valid peer hpeer
      · exact hadded.valid peer hpeer
    · intro p hp q hq hconflict
      obtain ⟨hmine, hstays⟩ := List.mem_filter.mp hp
      exact hfree p hmine hstays q hq ((conflict_merged hother hstays hmine hq).mp hconflict)

theorem eq_of_same (hsame : PeerAddress.same p q = true) (hname : p.name = q.name) : p = q := by
  obtain ⟨hhost, hport, hhttp, huuid⟩ := same_iff.mp hsame
  cases p
  cases q
  simp only [PeerAddress.mk.injEq]
  exact ⟨hhost, hport, hhttp, hname, huuid⟩

theorem NamesAgree.free (h : NamesAgree config other) (hother : Orderly other.peers) : NamesFree config other := by
  intro p hp hstays q hq hname
  obtain ⟨twin, htwin, hsame⟩ := List.any_eq_true.mp hstays
  obtain rfl := eq_of_same hsame (h p hp twin htwin hsame)
  obtain ⟨hq', hnone⟩ := mem_added.mp hq
  have heq : p = q := hother.eq_of_conflict htwin hq' (Or.inr (Or.inl hname))
  exact hnone p hp (heq ▸ same_self p)

-- Where the names agree, what comes out is what the other one has.
theorem merged_perm (h : Orderly config.peers) (hother : Orderly other.peers) (hnames : NamesAgree config other) :
    (merged config other).Perm other.peers := by
  have hmerged := (orderly_merged h hother).mpr (hnames.free hother)
  apply (List.perm_ext_iff_of_nodup hmerged.nodup hother.nodup).mpr
  intro peer
  constructor
  · intro hpeer
    rcases List.mem_append.mp hpeer with hkept | hadded
    · obtain ⟨hmine, hstays⟩ := List.mem_filter.mp hkept
      obtain ⟨twin, htwin, hsame⟩ := List.any_eq_true.mp hstays
      exact eq_of_same hsame (hnames peer hmine twin htwin hsame) ▸ htwin
    · exact (mem_added.mp hadded).1
  · intro hpeer
    by_cases htwin : ∃ p ∈ config.peers, PeerAddress.same p peer = true
    · obtain ⟨p, hp, hsame⟩ := htwin
      obtain rfl := eq_of_same hsame (hnames p hp peer hpeer hsame)
      exact List.mem_append_left _ (List.mem_filter.mpr ⟨hp, List.any_eq_true.mpr ⟨p, hpeer, hsame⟩⟩)
    · refine List.mem_append_right _ (mem_added.mpr ⟨hpeer, ?_⟩)
      intro p hp hsame
      exact htwin ⟨p, hp, same_comm p peer ▸ hsame⟩

theorem HashAgrees.congr {peers others : List PeerAddress} (h : Orderly peers) (hperm : peers.Perm others) :
    HashAgrees codec config other peers ↔ HashAgrees codec config other others := by
  unfold HashAgrees
  rw [rebuilt_hash_perm codec h hperm]

section Calls

-- What is left when the peers of the other configuration alone are to stay.
theorem filter_removed (hremoved : removed.Perm (config.diff other).2) :
    (config.peers.filter fun peer => peer ∉ removed) =
      config.peers.filter fun p => other.peers.any (PeerAddress.same p) := by
  apply List.filter_congr
  intro p hp
  have hmem : p ∈ removed ↔ ∀ q ∈ other.peers, ¬PeerAddress.same p q = true := by
    rw [hremoved.mem_iff, mem_removed]
    exact and_iff_right hp
  by_cases hstays : other.peers.any (PeerAddress.same p) = true
  · obtain ⟨q, hq, hsame⟩ := List.any_eq_true.mp hstays
    have hnot : p ∉ removed := fun h => hmem.mp h q hq hsame
    simp [hnot, hstays]
  · have hgone : p ∈ removed := hmem.mpr fun q hq hsame => hstays (List.any_eq_true.mpr ⟨q, hq, hsame⟩)
    simp only [hgone, not_true, decide_false]
    exact (eq_false_of_ne_true hstays).symm

theorem removed_run (codec : Codec) (h : Orderly config.peers) (hremoved : removed.Perm (config.diff other).2) :
    ∃ left, removeEach codec removed config = (true, left) ∧
      left.peers = (config.peers.filter fun p => other.peers.any (PeerAddress.same p)) ∧
      (removed = [] → left = config) ∧ (removed ≠ [] → left = rebuilt codec left.peers) := by
  have hmine : ∀ peer ∈ removed, peer ∈ config.peers := by
    intro peer hpeer
    exact (mem_removed.mp (hremoved.subset hpeer)).1
  have hnodup : removed.Nodup := hremoved.nodup_iff.mpr (h.nodup.sublist List.filter_sublist)
  have hfilter := filter_removed hremoved
  refine ⟨_, removeEach_run h hmine hnodup, ?_, fun hnone => if_pos hnone, ?_⟩
  · by_cases hnone : removed = []
    · rw [if_pos hnone, ← hfilter]
      simp [hnone]
    · rw [if_neg hnone, rebuilt_peers, hfilter]
  · intro hsome
    rw [if_neg hsome, rebuilt_peers]

-- All the calls together leave this configuration if there are none, and else one with the merged peers.
theorem patched (codec : Codec) (h : Orderly config.peers) (hremoved : removed.Perm (config.diff other).2)
    (hadded : added.Perm (config.diff other).1) :
    (removeEach codec removed config).1 = true ∧
      ((addEach codec added (removeEach codec removed config).2).1 = true ↔ Orderly (merged config other)) ∧
      (Orderly (merged config other) →
        ((addEach codec added (removeEach codec removed config).2).2.cachedHash = other.cachedHash ↔
          HashAgrees codec config other (merged config other))) := by
  obtain ⟨left, hleft, hpeers, hnone, hsome⟩ := removed_run codec h hremoved
  have hperm : (left.peers ++ added).Perm (merged config other) := by
    rw [hpeers]
    exact hadded.append_left _
  have horderly : Orderly (left.peers ++ added) ↔ Orderly (merged config other) :=
    ⟨fun hall => hall.perm hperm.symm, fun hall => hall.perm hperm⟩
  rw [hleft]
  refine ⟨rfl, ?_, ?_⟩
  · rw [addEach_iff (hpeers ▸ h.sublist List.filter_sublist), horderly]
  · intro hmerged
    rw [addEach_run (horderly.mpr hmerged)]
    have hsame : SameSets config other ↔ removed = [] ∧ added = [] := by
      rw [sameSets_iff, ← List.perm_nil, ← List.perm_nil, ← List.perm_nil, ← List.perm_nil]
      exact and_congr (hremoved.symm.congr_left []) (hadded.symm.congr_left [])
    by_cases hequal : SameSets config other
    · obtain ⟨hnothing, hnothing'⟩ := hsame.mp hequal
      rw [if_pos hnothing', hnone hnothing]
      simp [HashAgrees, hequal]
    · have hfinal : (if added = [] then left else rebuilt codec (left.peers ++ added)) =
          rebuilt codec (left.peers ++ added) := by
        split
        · rename_i hlast
          have hfirst : removed ≠ [] := fun hempty => hequal (hsame.mpr ⟨hempty, hlast⟩)
          rw [hlast, List.append_nil]
          exact hsome hfirst
        · rfl
      rw [hfinal, rebuilt_hash_perm codec (horderly.mpr hmerged) hperm]
      simp [HashAgrees, hequal]

end Calls

section Runs

variable {past later : List (Configuration × Edit)}

theorem diffExact_iff (h : Orderly config.peers) (hother : Orderly other.peers) :
    DiffExact codec config other ↔
      NamesFree config other ∧ HashAgrees codec config other (merged config other) := by
  constructor
  · intro hexact
    obtain ⟨_, hadds, hhash⟩ := hexact _ _ (List.Perm.refl _) (List.Perm.refl _)
    obtain ⟨_, hsucceeds, hleaves⟩ :=
      patched codec h (List.Perm.refl _) (List.Perm.refl (config.diff other).1)
    have hmerged := hsucceeds.mp hadds
    exact ⟨(orderly_merged h hother).mp hmerged, (hleaves hmerged).mp hhash⟩
  · rintro ⟨hfree, hhash⟩ removed added hremoved hadded
    have hmerged := (orderly_merged h hother).mpr hfree
    obtain ⟨hremoves, hsucceeds, hleaves⟩ := patched codec h hremoved hadded
    exact ⟨hremoves, hsucceeds.mpr hmerged, (hleaves hmerged).mpr hhash⟩

-- The difference is exact where the names agree and the hash of the other configuration is that of its peers.
-- Where they do not agree, only a hash that two sets of peers have in common can make it so.
theorem diff_exact_iff (run : (edits codec).Run past config) (run' : (edits codec).Run later other) :
    DiffExact codec config other ↔
      NamesAgree config other ∧ HashAgrees codec config other other.peers ∨
      ¬NamesAgree config other ∧ NamesFree config other ∧ HashAgrees codec config other (merged config other) := by
  have h := (sound_of_run run).orderly
  have hother := (sound_of_run run').orderly
  rw [diffExact_iff h hother]
  by_cases hnames : NamesAgree config other
  · have hfree := hnames.free hother
    have hmerged := (orderly_merged h hother).mpr hfree
    rw [HashAgrees.congr hmerged (merged_perm h hother hnames)]
    simp [hnames, hfree]
  · simp [hnames]

-- Where every call returns, the hash is that of the peers from the first change on.
theorem hash_of_peers (run : (returning codec).Run past config)
    (htouched : ∃ step ∈ past, step.2.Touches codec step.1) :
    config.cachedHash = (rebuilt codec config.peers).cachedHash := by
  have hsound := sound_of_run run.of_guard
  have hsorted : config.sortedPeers = (rebuilt codec config.peers).sortedPeers := by
    apply sorted_unique hsound.increasing (cacheSortedPeers_increasing codec hsound.orderly)
    intro peer
    rw [(perm_of_run run).mem_iff, (cacheSortedPeers_perm codec _).mem_iff]
  rw [hashed_of_run run htouched]
  exact createHash_congr codec hsorted

theorem diff_exact_iff_removal :
    let codec := writtenCodec []
    let both := (returning codec).replay [] {} [.addPeer bob, .addPeer alice]
    let single := (returning codec).replay [] {} [.addPeer alice]
    (both.2.diff single.2).2 = [bob] ∧ DiffExact codec both.2 single.2 := by
  intro codec both single
  have hstart : (returning codec).Run [] {} := .start rfl
  have hboth : (edits codec).Run both.1 both.2 :=
    (hstart.replay [.addPeer bob, .addPeer alice]
      (admits_adds _ _ (by simp [Edit.Sized, PortsFit, alice, bob]))).of_guard
  have hsingle : (returning codec).Run single.1 single.2 :=
    hstart.replay [.addPeer alice] (admits_adds _ _ (by simp [Edit.Sized, PortsFit, alice]))
  have hpeers : both.2.peers = [bob, alice] := by decide +kernel
  have hpeers' : single.2.peers = [alice] := by decide +kernel
  have hhash := hash_of_peers hsingle ⟨_, List.mem_cons_self, by decide +kernel⟩
  have hdifferent : ¬SameSets both.2 single.2 := by
    rw [sameSets_iff, diff, hpeers, hpeers']
    decide
  refine ⟨by rw [diff, hpeers, hpeers']; decide, (diff_exact_iff hboth hsingle.of_guard).mpr (Or.inl ⟨?_, ?_⟩)⟩
  · rw [NamesAgree, hpeers, hpeers']
    decide
  · exact ⟨fun hsame => absurd hsame hdifferent, fun _ => hhash.symm⟩

-- A peer that comes may have the name that another one has given up.
theorem diff_exact_broken : ¬∀ (codec : Codec) (past later : List (Configuration × Edit))
    (config other : Configuration),
    (edits codec).Run past config → (edits codec).Run later other → DiffExact codec config other := by
  intro h
  let codec := writtenCodec []
  let mine := (returning codec).replay [] {} [.addPeer alice]
  let renamed : List Edit := [.addPeer { alice with name := "carol" }, .addPeer { bob with name := "alice" }]
  let theirs := (returning codec).replay [] {} renamed
  have hstart : (returning codec).Run [] {} := .start rfl
  have hmine : (edits codec).Run mine.1 mine.2 :=
    (hstart.replay [.addPeer alice] (admits_adds _ _ (by simp [Edit.Sized, PortsFit, alice]))).of_guard
  have htheirs : (edits codec).Run theirs.1 theirs.2 :=
    (hstart.replay renamed (admits_adds _ _ (by simp [renamed, Edit.Sized, PortsFit, alice, bob]))).of_guard
  have hexact := h _ _ _ _ _ hmine htheirs
  have hfree := ((diffExact_iff (sound_of_run hmine).orderly (sound_of_run htheirs).orderly).mp hexact).1
  have hpeers : mine.2.peers = [alice] := by decide +kernel
  have hpeers' : theirs.2.peers = [{ alice with name := "carol" }, { bob with name := "alice" }] := by decide +kernel
  rw [NamesFree, diff, hpeers, hpeers'] at hfree
  exact absurd hfree (by decide)

end Runs

end Exactness

end Configuration

end SwarmDB.Pbft
