import Codec.Sn.OwnBytes

set_option autoImplicit false

namespace Codec.Sn

open Codec.Lib List

-- A well-formed MSG_P2P_REGISTER datagram, with the address it comes from and
-- the time it is processed at.
structure Registration where
  device : Bytes
  id : Bytes
  username : Bytes
  uuid : Option Bytes
  reserve : Bytes
  sock : NSock
  now : Nat
  deviceSize : device.length = 48
  idSize : id.length = 32
  usernameSize : username.length = 32
  uuidSize : ∀ text, uuid = some text → text.length = 64 ∧ 0 ∈ text
  reserveSize : reserve.length = 32

namespace Registration

variable (r : Registration)

def body : Bytes := r.device ++ (r.id ++ (r.username ++ (r.uuid.getD [] ++ r.reserve)))

@[irreducible] def datagram : Bytes := htons (6 + r.body.length) ++ (htons 1 ++ (htons msgP2pRegister ++ r.body))

def rx : Rx := { quietRx with sender := r.sock, now := r.now }

def publicInfo : Bytes := publicDevice r.device r.sock

end Registration

-- The server with the latest registration of each id that no purge has found
-- expired.
structure Registry where
  udp : Udp
  lastPurge : Nat
  latest : List Registration

def registryInit : Registry := ⟨⟨[], ⟨0, 0, 0, 0⟩, snInit⟩, 0, []⟩

inductive RegStep
  | register (r : Registration) (rest : Bytes)
  | purge (now : Nat)

def replaced (r : Registration) (latest : List Registration) : List Registration := latest.map fun old => if old.id = r.id then r else old

local instance lawfulId : LawfulBEq Bytes := inferInstance

def recorded (r : Registration) (latest : List Registration) : List Registration :=
  if r.id ∈ latest.map Registration.id then replaced r latest else r :: latest

def regStep (s : Registry) : RegStep → Registry
  | .register r rest =>
    { s with udp := (processUdp s.udp r.rx (received r.datagram rest) (bread r.datagram)).1, latest := recorded r s.latest }
  | .purge now =>
    let (lastPurge, edges) := purgeExpiredRegistrations s.lastPurge now s.udp.edges
    { s with
      udp := { s.udp with edges := edges }
      lastPurge := lastPurge
      latest := if now < s.lastPurge + purgeRegistrationFrequency then s.latest
        else s.latest.filter fun old => ¬ old.now + registrationTimeout < now }

-- The records of the user's devices, as many as a reply takes.
def listed (latest : List Registration) (user : Bytes) : Bytes :=
  (((latest.filter fun old => user = old.username).take 22).map Registration.publicInfo).flatten

structure EdgeOf (edge : Edge) (r : Registration) : Prop where
  mac : edge.mac = r.id
  community : edge.community = r.username
  sock : edge.sock = r.sock
  device : edge.device = r.publicInfo
  lastSeen : edge.lastSeen = r.now

structure LastWins (s : Registry) : Prop where
  ids : (s.latest.map Registration.id).Nodup
  entries : List.Forall₂ EdgeOf s.udp.edges s.latest
  replies : ∀ rx buf, ∃ head : Bytes, head.length = 8 + rx.sender.ip.length ∧
    (processGet s.udp rx buf).2 = [⟨rx.sender, .bytes (head ++ listed s.latest (slice buf 6 32))⟩]

def sought (r : Registration) (edge : Edge) : Bool :=
  match r.uuid with
  | some text => sameUuid text edge.uuid
  | none => edge.mac.take 6 = r.id.take 6

def FindsItsOwn (s : Registry) : RegStep → Prop
  | .purge _ => True
  | .register r _ =>
    match (s.udp.edges.zip s.latest).find? fun entry => sought r entry.1 with
    | some (edge, old) =>
      old.id = r.id ∧ (r.uuid.isSome ∨ r.username ≠ edge.community ∨ r.sock ≠ edge.sock ∨ r.publicInfo = edge.device)
    | none => r.id ∉ s.latest.map Registration.id

section Datagram

variable (r : Registration)

theorem slice_at (front field back : Bytes) (start len : Nat) (before : front.length = start) (size : field.length = len) :
    slice (front ++ (field ++ back)) start len = field := by
  rw [slice, ← before, drop_left, ← size, take_left]

theorem uuid_length : (r.uuid.getD []).length = if r.uuid.isSome then 64 else 0 := by
  cases given : r.uuid with
  | none => rfl
  | some text => exact (r.uuidSize text given).1

theorem body_length : r.body.length = if r.uuid.isSome then 208 else 144 := by
  simp only [Registration.body, length_append, r.deviceSize, r.idSize, r.usernameSize, r.reserveSize, uuid_length r]
  split <;> rfl

theorem datagram_length : r.datagram.length = 6 + r.body.length := by
  simp only [Registration.datagram, length_append, htons, length_cons, length_nil]
  omega

theorem datagram_sized : SizedRight r.datagram := by
  refine ⟨by rw [datagram_length]; omega, ?_⟩
  have size : slice r.datagram 0 2 = htons (6 + r.body.length) := by
    rw [Registration.datagram]
    exact slice_at [] (htons _) _ 0 2 rfl rfl
  rw [size, datagram_length, body_length]
  split <;> rfl

theorem datagram_kind : ntohs (slice r.datagram 4 2) = msgP2pRegister := by
  have cmd : slice r.datagram 4 2 = htons msgP2pRegister := by
    rw [Registration.datagram, ← append_assoc]
    exact slice_at _ _ _ 4 2 rfl rfl
  rw [cmd]
  rfl

theorem datagram_fields : HasItsFields r.datagram := by
  have size : r.datagram.length = 150 ∨ 183 ≤ r.datagram.length := by
    rw [datagram_length, body_length]
    split <;> omega
  rw [HasItsFields, if_neg (by omega), if_neg (by omega)]
  rw [if_pos (datagram_kind r)]
  exact size.imp_right .inl

theorem datagram_parsed : p2pRegister r.datagram = ⟨r.device, r.id, r.username⟩ := by
  have device : slice r.datagram 6 48 = r.device := by
    rw [Registration.datagram, Registration.body, ← append_assoc, ← append_assoc]
    exact slice_at _ _ _ 6 48 rfl r.deviceSize
  have id : slice r.datagram 54 32 = r.id := by
    rw [Registration.datagram, Registration.body, ← append_assoc, ← append_assoc, ← append_assoc]
    exact slice_at _ _ _ 54 32 (by simp [htons, r.deviceSize]) r.idSize
  have username : slice r.datagram 86 32 = r.username := by
    rw [Registration.datagram, Registration.body, ← append_assoc, ← append_assoc, ← append_assoc, ← append_assoc]
    exact slice_at _ _ _ 86 32 (by simp [htons, r.deviceSize, r.idSize]) r.usernameSize
  rw [p2pRegister, device, id, username]

theorem datagram_uuid : r.datagram.drop 118 = r.uuid.getD [] ++ r.reserve := by
  rw [Registration.datagram, Registration.body, ← append_assoc, ← append_assoc, ← append_assoc, ← append_assoc,
    ← append_assoc]
  exact drop_left' (by simp [htons, r.deviceSize, r.idSize, r.usernameSize])

theorem register_runs (s : Udp) (rest : Bytes) : (processUdp s r.rx (received r.datagram rest) (bread r.datagram)).1.edges =
      match r.uuid with
      | some text => updateEdgeUuid ⟨r.device, r.id, r.username⟩ text s.edges r.sock r.now
      | none => updateEdge ⟨r.device, r.id, r.username⟩ s.edges r.sock r.now := by
  have size := datagram_length r
  rw [body_length] at size
  have fits : r.datagram.length ≤ n2nSnPktbufSize := by
    rw [n2nSnPktbufSize]
    split at size <;> omega
  rw [received_short _ rest fits, bread, Nat.min_eq_left fits, fields_own s r.rx _ _ (datagram_fields r),
    kind_register s r.rx _ _ (datagram_sized r).2 (datagram_kind r)]
  rw [processRegister, datagram_parsed, datagram_uuid]
  cases given : r.uuid with
  | none =>
    rw [given] at size
    exact congrArg _ (if_pos size)
  | some text =>
    rw [given] at size
    have plain : r.datagram.length ≠ 6 + 144 := by
      rw [size]
      exact Nat.ne_of_gt (by simp)
    rw [if_neg plain]
    obtain ⟨whole, ends⟩ := r.uuidSize text given
    refine uuid_congr _ _ _ _ _ _ ?_ ?_
    · rw [Option.getD_some, take_append, take_of_length_le (l := text) (by omega), cString_own _ _ ends]
    · rw [Option.getD_some, take_append_of_le_length (by omega)]

end Datagram

section Step

variable (s : Registry) (r : Registration) (latest : List Registration)

theorem register_step (rest : Bytes) : (regStep s (.register r rest)).udp.edges =
    match r.uuid with
    | some text => updateEdgeUuid ⟨r.device, r.id, r.username⟩ text s.udp.edges r.sock r.now
    | none => updateEdge ⟨r.device, r.id, r.username⟩ s.udp.edges r.sock r.now :=
  register_runs r _ rest

theorem replaced_other (absent : r.id ∉ latest.map Registration.id) : replaced r latest = latest :=
  (map_congr_left fun old there => if_neg fun same => absent (mem_map.mpr ⟨old, there, same⟩)).trans (map_id _)

theorem replaced_ids : (replaced r latest).map Registration.id = latest.map Registration.id := by
  rw [replaced, map_map]
  refine map_congr_left fun old _ => ?_
  by_cases same : old.id = r.id
  · exact (congrArg _ (if_pos same)).trans same.symm
  · exact congrArg _ (if_neg same)

theorem recorded_ids (ids : (latest.map Registration.id).Nodup) : ((recorded r latest).map Registration.id).Nodup := by
  rw [recorded]
  split
  · rwa [replaced_ids]
  · rename_i absent
    exact nodup_cons.mpr ⟨absent, ids⟩

theorem refresh_own (found : Edge → Bool) (change : Edge → Edge) (edges : List Edge) (latest : List Registration)
    (entries : List.Forall₂ EdgeOf edges latest) (ids : (latest.map Registration.id).Nodup) (edge : Edge) (old : Registration)
    (first : (edges.zip latest).find? (fun entry => found entry.1) = some (edge, old)) (own : old.id = r.id)
    (changed : EdgeOf edge old → EdgeOf (change edge) r) :
    r.id ∈ latest.map Registration.id ∧ ∃ next, refresh found change edges = some next ∧ List.Forall₂ EdgeOf next (replaced r latest) := by
  induction entries with
  | nil => exact nomatch first
  | cons head tail ih =>
    rename_i top one others olds
    obtain ⟨fresh, ids⟩ := nodup_cons.mp ids
    rw [zip_cons_cons] at first
    by_cases hit : found top = true
    · rw [find?_cons_of_pos (p := fun entry : Edge × Registration => found entry.1) hit] at first
      obtain ⟨rfl, rfl⟩ := Prod.mk.inj (Option.some.inj first)
      refine ⟨mem_map.mpr ⟨one, mem_cons_self, own⟩, change top :: others, if_pos hit, ?_⟩
      rw [replaced, map_cons, if_pos own]
      refine Forall₂.cons (changed head) ?_
      have same := replaced_other r olds (own ▸ fresh)
      rw [replaced] at same
      rwa [same]
    · rw [find?_cons_of_neg (p := fun entry : Edge × Registration => found entry.1) hit] at first
      obtain ⟨listed, next, refreshed, matched⟩ := ih ids first
      refine ⟨mem_cons_of_mem _ listed, top :: next, ?_, ?_⟩
      · rw [refresh, if_neg hit, refreshed]
        rfl
      · rw [replaced, map_cons, if_neg fun same => fresh (by rw [same]; exact listed)]
        exact Forall₂.cons head matched

theorem refresh_none (found : Edge → Bool) (change : Edge → Edge) (edges : List Edge) (latest : List Registration)
    (entries : List.Forall₂ EdgeOf edges latest) (first : (edges.zip latest).find? (fun entry => found entry.1) = none) :
    refresh found change edges = none := by
  induction entries with
  | nil => rfl
  | cons head tail ih =>
    rename_i top one others olds
    rw [zip_cons_cons, find?_cons] at first
    cases hit : found top with
    | true =>
      rw [show found _ = true from hit] at first
      exact nomatch first
    | false =>
      rw [show found _ = false from hit] at first
      rw [refresh, if_neg (by rw [hit]; exact Bool.false_ne_true), ih first]
      rfl

theorem new_matches (uuid : Bytes) :
    EdgeOf ⟨r.username, r.id, r.sock, uuid, r.now, publicDevice r.device r.sock⟩ r := ⟨rfl, rfl, rfl, rfl, rfl⟩

theorem register_entries (holds : LastWins s) (r : Registration) (rest : Bytes) (finds : FindsItsOwn s (.register r rest)) :
    List.Forall₂ EdgeOf (regStep s (.register r rest)).udp.edges (recorded r s.latest) := by
  rw [register_step]
  rw [FindsItsOwn] at finds
  cases first : (s.udp.edges.zip _).find? _ with
  | none =>
    rw [first] at finds
    have missed := fun change => refresh_none _ change _ _ holds.entries first
    rw [recorded, if_neg finds]
    cases given : r.uuid with
    | none =>
      rw [updateEdge, show (fun edge : Edge => decide _) = sought r from funext fun edge => by rw [sought, given], missed]
      exact Forall₂.cons (new_matches r _) holds.entries
    | some text =>
      dsimp only
      rw [updateEdgeUuid, show (fun edge : Edge => sameUuid text _) = sought r from funext fun edge => by rw [sought, given], missed]
      exact Forall₂.cons (new_matches r _) holds.entries
  | some entry =>
    obtain ⟨edge, old⟩ := entry
    rw [first] at finds
    obtain ⟨own, stored⟩ := finds
    have hit := fun change => refresh_own r _ change _ _ holds.entries holds.ids edge old first own
    cases given : r.uuid with
    | none =>
      rw [updateEdge, show (fun edge : Edge => decide _) = sought r from funext fun edge => by rw [sought, given]]
      obtain ⟨there, next, refreshed, matched⟩ := hit (fun edge => if r.username ≠ edge.community ∨ r.sock ≠ edge.sock then
          { edge with community := r.username, sock := r.sock, device := publicDevice _ _, lastSeen := r.now }
        else { edge with lastSeen := r.now }) (fun matched => by
          have mac := matched.mac.trans own
          split
          · exact ⟨mac, rfl, rfl, rfl, rfl⟩
          · rename_i same
            obtain ⟨community, sock⟩ := not_or.mp same
            rw [given] at stored
            have device := (stored.resolve_left (by rintro ⟨⟩)).resolve_left community |>.resolve_left sock
            exact ⟨mac, (not_not.mp community).symm, (not_not.mp sock).symm, device.symm, rfl⟩)
      rw [refreshed, recorded, if_pos there]
      exact matched
    | some text =>
      dsimp only
      rw [updateEdgeUuid, show (fun edge : Edge => sameUuid text _) = sought r from funext fun edge => by rw [sought, given]]
      obtain ⟨there, next, refreshed, matched⟩ := hit (fun edge =>
          { edge with community := r.username, sock := r.sock, uuid := text.take 64, device := publicDevice _ _, lastSeen := r.now })
        (fun matched => ⟨matched.mac.trans own, rfl, rfl, rfl, rfl⟩)
      rw [refreshed, recorded, if_pos there]
      exact matched

theorem records_listed (user : Bytes) (edges : List Edge) (latest : List Registration) (entries : List.Forall₂ EdgeOf edges latest)
    (count : Nat) (few : count < 22) :
    processP2pAck user (count * 48) edges = (((latest.filter fun old => user = old.username).take (22 - count)).map Registration.publicInfo).flatten := by
  induction entries generalizing count with
  | nil =>
    rw [filter_nil, take_nil]
    rfl
  | cons head tail ih =>
    rename_i edge old edges latest
    rw [processP2pAck, head.community]
    by_cases named : user = old.username
    · rw [if_pos named, filter_cons_of_pos (by simpa using named), head.device, show 22 - count = (21 - count) + 1 by omega, take_succ_cons,
        map_cons, flatten_cons]
      by_cases last : count = 21
      · rw [if_pos (by omega), show 21 - count = 0 by omega, take_zero]
        exact (append_nil _).symm
      · rw [if_neg (by omega), show count * 48 + 48 = (count + 1) * 48 by omega, ih _ (by omega),
          show 22 - (count + 1) = 21 - count by omega]
    · rw [if_neg named, filter_cons_of_neg (by simpa using named)]
      exact ih _ few

theorem wins_of (ids : (s.latest.map Registration.id).Nodup) (entries : List.Forall₂ EdgeOf s.udp.edges s.latest) : LastWins s := by
  refine ⟨ids, entries, fun rx buf => ?_⟩
  have records : processP2pAck _ 0 _ = listed _ _ := records_listed (slice buf 6 32) _ _ entries 0 (by decide)
  rw [processGet, records]
  by_cases unknown : listed s.latest (slice buf 6 32) = []
  · refine ⟨htons 6 ++ htons 1 ++ htons msgP2pAck ++ rx.sender.ip ++ htons rx.sender.port, ?_, ?_⟩
    · simp only [length_append, htons, length_cons, length_nil]
      omega
    · rw [if_pos unknown, unknown, append_nil]
  · refine ⟨htons ((listed s.latest (slice buf 6 32)).length + 12) ++ htons 1 ++ htons msgP2pAck ++ rx.sender.ip ++ htons rx.sender.port, ?_, ?_⟩
    · simp only [length_append, htons, length_cons, length_nil]
      omega
    · rw [if_neg unknown, respond]

theorem filter_entries (now : Nat) (edges : List Edge) (latest : List Registration) (entries : List.Forall₂ EdgeOf edges latest) :
    List.Forall₂ EdgeOf (edges.filter fun edge => ¬ edge.lastSeen + registrationTimeout < now)
      (latest.filter fun old => ¬ old.now + registrationTimeout < now) := by
  induction entries with
  | nil => exact Forall₂.nil
  | cons head tail ih =>
    rw [filter_cons, filter_cons, head.lastSeen]
    split
    · exact Forall₂.cons head ih
    · exact ih

theorem last_wins_step (step : RegStep) (holds : LastWins s) (finds : FindsItsOwn s step) : LastWins (regStep s step) := by
  cases step with
  | register r rest => exact wins_of _ (recorded_ids r _ holds.ids) (register_entries s holds r rest finds)
  | purge now =>
    rw [regStep, purgeExpiredRegistrations]
    by_cases early : now < s.lastPurge + purgeRegistrationFrequency
    · rw [if_pos early]
      rw [if_pos early]
      exact wins_of _ holds.ids holds.entries
    · rw [if_neg early]
      rw [if_neg early]
      exact wins_of _ (holds.ids.sublist ((filter_sublist).map _)) (filter_entries now _ _ holds.entries)

end Step

theorem last_registration_wins (steps : List RegStep) (finds : AllSteps regStep FindsItsOwn registryInit steps) :
    LastWins (run regStep registryInit steps) :=
  run_keeps _ _ _ _ _ (wins_of _ nodup_nil Forall₂.nil) last_wins_step finds

section Sample

def sampleId : Bytes := List.replicate 32 7

def sampleReg (device : UInt8) (now : Nat) : Registration :=
  ⟨List.replicate 48 device, sampleId, List.replicate 32 1, none, List.replicate 32 0, ⟨[10, 0, 0, 1], 4000⟩, now, rfl, rfl, rfl, nofun, rfl⟩

def sampleEdge (device : UInt8) (now : Nat) : Edge :=
  ⟨List.replicate 32 1, sampleId, ⟨[10, 0, 0, 1], 4000⟩, List.replicate 64 0, now, (sampleReg device now).publicInfo⟩

-- The device registers again from another address.
theorem last_registration_wins_sample : LastWins (run regStep registryInit [.register (sampleReg 3 1) [],
    .register { sampleReg 4 2 with sock := ⟨[10, 0, 0, 2], 5000⟩ } [], .purge 40]) := by
  have edges : (regStep registryInit (.register (sampleReg 3 1) [])).udp.edges = [sampleEdge 3 1] := by
    rw [register_step]
    decide +kernel
  refine last_registration_wins _ ⟨not_mem_nil, ?_, trivial, trivial⟩
  rw [FindsItsOwn, edges]
  exact ⟨rfl, .inr (.inr (.inl (by decide)))⟩

theorem sample_edges : (regStep (regStep registryInit (.register (sampleReg 3 1) [])) (.register (sampleReg 4 2) [])).udp.edges =
    [{ sampleEdge 3 1 with lastSeen := 2 }] := by
  rw [register_step, register_step]
  decide +kernel

-- The same device registers new data from its old address.
theorem new_data_lost : ¬ LastWins (run regStep registryInit [.register (sampleReg 3 1) [], .register (sampleReg 4 2) []]) := by
  intro holds
  obtain ⟨head, size, reply⟩ := holds.replies quietRx (replicate 38 1)
  rw [run_cons, run_cons, run_nil, processGet, sample_edges] at reply
  have content := Reply.bytes.inj (congrArg Sent.reply (cons.inj reply).1)
  have wanted : listed (regStep (regStep registryInit (.register (sampleReg 3 1) [])) (.register (sampleReg 4 2) [])).latest
      (slice (replicate 38 1) 6 32) = (sampleReg 4 2).publicInfo := by
    rw [show (regStep _ _).latest = [sampleReg 4 2] from rfl]
    decide +kernel
  have pending := congrArg (drop 12) content
  rw [wanted, drop_left' (show head.length = 12 from size)] at pending
  exact absurd pending (by decide +kernel)

end Sample

end Codec.Sn
