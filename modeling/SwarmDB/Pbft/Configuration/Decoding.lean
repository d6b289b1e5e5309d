import SwarmDB.Pbft.Configuration.Canonical
import SwarmDB.Pbft.Replica

namespace SwarmDB.Pbft

namespace Configuration

variable {codec : Codec} {config : Configuration} {str : String} {elements : List Json} {peers : List PeerAddress}

section Reading

-- Every element of the array can be read as a peer, whether valid or not.
def Readable (codec : Codec) (str : String) : Prop :=
  Askable codec str ∧ ∀ elements, elementsOf codec str = some elements → ∀ json ∈ elements, (peerOf json).isSome = true

-- The call returns, and where it returns false the configuration is as before.
def TotalAtomic (codec : Codec) (str : String) (config : Configuration) : Prop :=
  ∃ result, (fromString codec str config).result = .ok result ∧
    (result = false → (fromString codec str config).state = config)

theorem mapM_peerOf_isSome (elements : List Json) :
    (∃ peers, elements.mapM peerOf = some peers) ↔ ∀ json ∈ elements, (peerOf json).isSome = true := by
  induction elements with
  | nil => simp
  | cons json rest ih =>
      rw [List.forall_mem_cons, ← ih, List.mapM_cons]
      cases hfirst : peerOf json with
      | none => simp
      | some peer =>
          cases hrest : rest.mapM peerOf with
          | none => simp
          | some peers => simp

theorem returns_iff (codec : Codec) (str : String) (config : Configuration) :
    (∃ result, (fromString codec str config).result = .ok result) ↔ Readable codec str := by
  constructor
  · rintro ⟨result, hresult⟩
    refine ⟨?_, ?_⟩
    · by_contra hunaskable
      obtain ⟨e, hrun⟩ := fromString_unaskable hunaskable config
      rw [hrun] at hresult
      cases hresult
    · intro elements helements
      rw [← mapM_peerOf_isSome]
      cases hpeers : elements.mapM peerOf with
      | some peers => exact ⟨peers, rfl⟩
      | none =>
          obtain ⟨_, _, hrun⟩ := fromString_broken helements hpeers config
          rw [hrun] at hresult
          cases hresult
  · rintro ⟨haskable, hreadable⟩
    cases helements : elementsOf codec str with
    | none => exact ⟨false, by rw [fromString_refused helements haskable]⟩
    | some elements =>
        obtain ⟨peers, hpeers⟩ := (mapM_peerOf_isSome elements).mpr (hreadable elements helements)
        exact ⟨_, by rw [fromString_read helements hpeers]⟩

-- Reading a configuration neither throws nor leaves a part of it just where every peer can be read, and either
-- all of them are valid and apart or those that come through are what is there already.
theorem totalAtomic_iff (codec : Codec) (str : String) (config : Configuration) :
    TotalAtomic codec str config ↔ Readable codec str ∧
      ∀ elements peers, elementsOf codec str = some elements → elements.mapM peerOf = some peers →
        Orderly peers ∨ config = rebuilt codec (takeIn [] peers) := by
  constructor
  · rintro ⟨result, hresult, hatomic⟩
    refine ⟨(returns_iff codec str config).mp ⟨result, hresult⟩, ?_⟩
    intro elements peers helements hpeers
    have hrun := fromString_read helements hpeers config
    by_cases horderly : Orderly peers
    · exact Or.inl horderly
    · right
      have hsome : takeIn [] peers ≠ peers := fun hall => horderly ((takeIn_all_iff orderly_nil).mp hall)
      rw [hrun] at hresult hatomic
      have hfalse : result = false := by simpa [hsome] using hresult.symm
      exact (hatomic hfalse).symm
  · rintro ⟨hreadable, hpeers⟩
    obtain ⟨result, hresult⟩ := (returns_iff codec str config).mpr hreadable
    refine ⟨result, hresult, ?_⟩
    rintro rfl
    cases helements : elementsOf codec str with
    | none => exact fromString_unread helements config
    | some elements =>
        obtain ⟨peers, hread⟩ := (mapM_peerOf_isSome elements).mpr (hreadable.2 elements helements)
        have hrun := fromString_read helements hread config
        rw [hrun] at hresult ⊢
        rcases hpeers elements peers helements hread with horderly | hholds
        · have hall : takeIn [] peers = peers := (takeIn_all_iff orderly_nil).mpr horderly
          simp [hall] at hresult
        · exact hholds.symm

end Reading

section Proposals

variable {lib : Library} {msg : PbftMsg} {op : Operation} {r : Replica}

open Replica

theorem handleConfigMessage_eq (htype : msg.type = .preprepare) : handleConfigMessage lib msg op r =
    match (fromString lib.toCodec op.request.configuration {}).result with
    | .error e => ⟨r, [], .error e⟩
    | .ok good => ⟨if good then updateConfigurations (fun store =>
        store.add (fromString lib.toCodec op.request.configuration {}).state) r else r, [], .ok ()⟩ := by
  unfold handleConfigMessage readConfiguration
  rw [if_pos htype]
  cases hresult : (fromString lib.toCodec op.request.configuration {}).result with
  | error e => simp [hresult, Bind.bind, Handler.bind, Handler.throws]
  | ok good =>
      cases good with
      | false => simp [hresult, Bind.bind, Handler.bind, Pure.pure]
      | true => simp [hresult, Bind.bind, Handler.bind, Pure.pure, Handler.updates]

-- The handler of a proposal goes on just where the text can be read. What it adds has been read as a whole.
structure Handled (lib : Library) (msg : PbftMsg) (op : Operation) (r : Replica) : Prop where
  returns : (handleConfigMessage lib msg op r).result = .ok () ↔ Readable lib.toCodec op.request.configuration
  whole : (handleConfigMessage lib msg op r).state = r ∨
    (fromString lib.toCodec op.request.configuration {}).result = .ok true ∧
      (handleConfigMessage lib msg op r).state = updateConfigurations (fun store =>
        store.add (fromString lib.toCodec op.request.configuration {}).state) r

theorem handled_of_preprepare (htype : msg.type = .preprepare) : Handled lib msg op r := by
  have hreturns := returns_iff lib.toCodec op.request.configuration {}
  refine ⟨?_, ?_⟩
  · rw [← hreturns, handleConfigMessage_eq htype]
    cases (fromString lib.toCodec op.request.configuration {}).result with
    | error e => simp
    | ok good => simp
  · rw [handleConfigMessage_eq htype]
    cases (fromString lib.toCodec op.request.configuration {}).result with
    | error e => exact Or.inl rfl
    | ok good =>
        cases good with
        | false => exact Or.inl rfl
        | true => exact Or.inr ⟨rfl, rfl⟩

theorem totalAtomic_and_handled (lib : Library) (str : String) (config : Configuration) :
    (TotalAtomic lib.toCodec str config ↔ Readable lib.toCodec str ∧
      ∀ elements peers, elementsOf lib.toCodec str = some elements → elements.mapM peerOf = some peers →
        Orderly peers ∨ config = rebuilt lib.toCodec (takeIn [] peers)) ∧
    ∀ msg op r, msg.type = .preprepare → op.request.configuration = str → Handled lib msg op r :=
  ⟨totalAtomic_iff lib.toCodec str config, fun _ _ _ htype _ => handled_of_preprepare htype⟩

def listing (elements : List Json) : Json := .object [("peers", .array elements)]

-- A peer whose port is no number.
def portless : Json := .object [("port", .string "50000")]

-- A reader that knows the text of these elements alone.
def knowing (elements : List Json) : Library where
  toCodec := writtenCodec [listing elements]
  requestHash := Request.configuration
  validAddress _ := true

theorem elementsOf_knowing (elements : List Json) :
    elementsOf (knowing elements).toCodec (toStyledText (listing elements)) = some elements := by
  simp [elementsOf, knowing, writtenCodec, listing, Json.member]

def proposing (elements : List Json) : Operation :=
  { view := 1, sequence := 1, request := { body := .config (toStyledText (listing elements)) }, peers := [] }

theorem readable_knowing {elements : List Json} (h : ∀ json ∈ elements, (peerOf json).isSome = true) :
    Readable (knowing elements).toCodec (toStyledText (listing elements)) := by
  refine ⟨askable_of_elements (elementsOf_knowing elements), ?_⟩
  intro found hfound
  rw [← Option.some.inj ((elementsOf_knowing elements).symm.trans hfound)]
  exact h

theorem totalAtomic_and_handled_alice :
    TotalAtomic (knowing [peerJson alice]).toCodec (toStyledText (listing [peerJson alice])) {} ∧
      ∀ r, (handleConfigMessage (knowing [peerJson alice]) { type := .preprepare, view := 1, sequence := 1 }
        (proposing [peerJson alice]) r).result = .ok () := by
  have hpeer : peerOf (peerJson alice) = some alice := peerOf_peerJson (by decide)
  have hpeers : [peerJson alice].mapM peerOf = some [alice] := by simp [hpeer]
  have hreadable : Readable (knowing [peerJson alice]).toCodec (toStyledText (listing [peerJson alice])) :=
    readable_knowing (by simp [hpeer])
  obtain ⟨hiff, hhandled⟩ := totalAtomic_and_handled (knowing [peerJson alice])
    (toStyledText (listing [peerJson alice])) {}
  refine ⟨hiff.mpr ⟨hreadable, ?_⟩, fun r => (hhandled _ (proposing [peerJson alice]) r rfl rfl).returns.mpr hreadable⟩
  intro elements peers hsome hread
  have hsame := Option.some.inj ((elementsOf_knowing _).symm.trans hsome)
  rw [← hsame, hpeers] at hread
  rw [← Option.some.inj hread]
  exact Or.inl (orderly_concat.mpr ⟨orderly_nil, by decide⟩)

-- A port that is a string throws, with the peer before it in the set. A peer that is there twice makes the
-- call fail, and stays.
theorem totalAtomic_broken :
    ¬TotalAtomic (knowing [peerJson alice, portless]).toCodec
      (toStyledText (listing [peerJson alice, portless])) {} ∧
    ¬TotalAtomic (knowing [peerJson alice, peerJson alice]).toCodec
      (toStyledText (listing [peerJson alice, peerJson alice])) {} := by
  refine ⟨?_, ?_⟩
  · intro h
    have hreadable := ((totalAtomic_iff _ _ _).mp h).1.2 _ (elementsOf_knowing _) portless (by simp)
    exact absurd hreadable (by decide +kernel)
  · intro h
    have hpeer : peerOf (peerJson alice) = some alice := peerOf_peerJson (by decide)
    have hpeers : [peerJson alice, peerJson alice].mapM peerOf = some [alice, alice] := by simp [hpeer]
    rcases ((totalAtomic_iff _ _ _).mp h).2 _ _ (elementsOf_knowing _) hpeers with horderly | hholds
    · exact absurd horderly.nodup (by decide)
    · exact absurd (congrArg Configuration.peers hholds) (by decide)

end Proposals

end Configuration

end SwarmDB.Pbft
