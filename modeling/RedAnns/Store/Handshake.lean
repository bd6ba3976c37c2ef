import RedAnns.Store.Checksum
import RedAnns.Store.Connections

/-!
The two messages by which a queue pair is connected, as the bytes that go over the socket
(`connect_rc`, `recv_thread` and `get_local_qp_attr` in `rdma_lib/rdmaio.hpp`), with their
assertions.

Both structs begin with a checksum of the rest. The assertion of `recv_thread` on the signature is
an assignment, and so sets it, before the checksum is looked at.

* `request`, `recvThreadReads`: the request, and what is read in some bytes that arrive.
* `reply`, `connectRcReads`: the reply, and what is made of it; `grants`: whether it has attributes.
* `checks_iff`: which bytes pass the check.
* `recvThreadReads_set`, `connectRcReads_set`: what is read in a message one byte of which was
  changed.
-/

namespace RedAnns

namespace Connect

open OnesComplement

/-! ### The source -/

/-- `MAGIC_NUM`. -/
def magicNum : ℕ := 73

/-- `TCPSUCC`. -/
def tcpSucc : UInt8 := 27

/-- `TCPFAIL`. -/
def tcpFail : UInt8 := 28

/-- A field of a struct of some bytes. -/
def fieldAt (m : List UInt8) (offset size : ℕ) : ℕ := decodeNat ((m.drop offset).take size)

/-- A struct at an address, its checksum filled in. -/
def withChecksum (address : ℕ) (body : List UInt8) : List UInt8 :=
  encodeNat 8 (ipChecksum (address + 8) body).toNat ++ body

/-- The comparison of the checksum of a struct with the one in it. -/
def checks (address : ℕ) (m : List UInt8) : Bool :=
  (ipChecksum (address + 8) (m.drop 8)).toNat == fieldAt m 0 8

/-- `QPConnArg` after its checksum, with its padding, which `connect_rc` has set to zero. -/
def connArgBody (qid : ℕ) (tid nid : UInt8) : List UInt8 :=
  encodeNat 8 qid ++ [tid, nid] ++ List.replicate 6 0 ++ encodeNat 8 magicNum ++ List.replicate 32 0

/-- The request of `connect_rc`. -/
def request (address qid : ℕ) (tid nid : UInt8) : List UInt8 :=
  withChecksum address (connArgBody qid tid nid)

/-- `arg.sign = MAGIC_NUM`. -/
def setSign (m : List UInt8) : List UInt8 := m.take 24 ++ encodeNat 8 magicNum ++ m.drop 32

/-- What `recv_thread` reads in the bytes of a request: the id of a queue pair, unless an assertion
fails. -/
def recvThreadReads (address : ℕ) (m : List UInt8) : Option ℕ :=
  if checks address (setSign m) then some (fieldAt (setSign m) 8 8) else none

/-- `RdmaQpAttr` of a connected queue pair after its checksum. Its padding holds whatever was in
memory there. -/
def qpAttrBody (region : MemoryRegion) (lid qpn gid : ℕ) (padding : Fin 14 → UInt8) : List UInt8 :=
  encodeNat 8 region.buf ++ encodeNat 4 region.bufSize ++ encodeNat 4 region.rkey ++ encodeNat 2 lid
    ++ (List.ofFn padding).take 6 ++ encodeNat 8 qpn ++ encodeNat 16 gid
      ++ (List.ofFn padding).drop 6

/-- The struct of some bytes. -/
def qpAttrOf (m : List UInt8) : RdmaQpAttr where
  region := some ⟨fieldAt m 8 8, fieldAt m 16 4, fieldAt m 20 4⟩
  lid := fieldAt m 24 2
  qpn := fieldAt m 32 8
  gid := fieldAt m 40 16

/-- `QPReplyHeader`: a status, which is followed by padding, and the id of a datagram queue pair. -/
def replyHeader (status : UInt8) (qid : ℕ) : List UInt8 :=
  status :: List.replicate 7 0 ++ encodeNat 8 qid

/-- The reply of `recv_thread` to a request for the queue pair `qid`, if that is `qp` and `attr` is
the struct of its attributes: a header of 16 bytes and a struct, which is zero in a refusal. -/
def reply (qid : ℕ) (qp : Option Qp) (attr : List UInt8) : List UInt8 :=
  match qp with
  | none => replyHeader tcpFail 0 ++ List.replicate 64 0
  | some qp =>
      if isUd qid then
        if qp.inited then replyHeader tcpSucc qid ++ attr
        else replyHeader tcpFail qid ++ List.replicate 64 0
      else replyHeader tcpSucc 0 ++ attr

/-- The queue pair is there, and a datagram one is initialized. -/
def grants (qid : ℕ) (qp : Option Qp) : Bool := qp.any fun qp => !isUd qid || qp.inited

/-- What becomes of an attempt. -/
inductive Attempt
  | connected (attr : RdmaQpAttr)
  | refused
  | aborted

/-- What `connect_rc` makes of a reply. -/
def connectRcReads (address : ℕ) (m : List UInt8) : Attempt :=
  if m.head? = some tcpSucc then
    if checks address (m.drop 16) then .connected (qpAttrOf (m.drop 16)) else .aborted
  else if m.head? = some tcpFail then .refused
  else .aborted

/-! ### The check -/

section Check

variable {body m bs cs : List UInt8} {a b i : ℕ} {v : UInt8}

lemma toNat_htons (w : UInt16) : (htons w).toNat = swapBytes w.toNat := by
  have hlt := w.toNat_lt
  have hhigh : w.toNat / 256 < 2 ^ 8 := by omega
  have hlow : w.toNat % 2 ^ 8 < 2 ^ 8 := Nat.mod_lt _ (by omega)
  simp only [htons, encodeNat, List.reverse_cons, List.reverse_nil, List.nil_append,
    List.cons_append, decodeNat, UInt8.toNat_ofNat', UInt16.toNat_ofNat', swapBytes,
    Nat.mod_eq_of_lt hhigh]
  omega

lemma htons_inj {w w' : UInt16} : htons w = htons w' ↔ w = w' := by
  refine ⟨fun h => ?_, congrArg htons⟩
  have hlt := w.toNat_lt
  have hlt' := w'.toNat_lt
  have hswap : swapBytes w.toNat = swapBytes w'.toNat := by
    rw [← toNat_htons, ← toNat_htons, h]
  refine UInt16.toNat_inj.mp ?_
  rw [swapBytes, swapBytes] at hswap
  omega

/-- **Equal checksums are equal sums.** -/
lemma internetChecksum_eq_iff :
    internetChecksum bs = internetChecksum cs ↔
      byteSum false bs ≡ byteSum false cs [MOD 65535] := by
  have hbs := stands_ones.onesSum bs
  have hcs := stands_ones.onesSum cs
  have := hbs.le
  have := hcs.le
  rw [Nat.zero_add] at hbs hcs
  rw [← hbs.modEq_iff hcs, internetChecksum, internetChecksum, ← UInt64.toNat_inj,
    UInt16.toNat_toUInt64, UInt16.toNat_toUInt64, UInt16.toNat_inj, htons_inj, ← UInt16.toNat_inj,
    UInt16.toNat_ofNat', UInt16.toNat_ofNat']
  omega

lemma decodeNat_inj (hlen : bs.length = cs.length) : decodeNat bs = decodeNat cs ↔ bs = cs := by
  refine ⟨fun h => ?_, congrArg decodeNat⟩
  rw [← encodeNat_decodeNat bs, ← encodeNat_decodeNat cs, h, hlen]

lemma length_withChecksum (a : ℕ) (body : List UInt8) :
    (withChecksum a body).length = 8 + body.length := by simp [withChecksum]

/-- **Which bytes pass the check** behind the checksum of a struct. -/
lemma checks_iff (hbody : body.length ≤ 2 ^ 33) (hm : m.length ≤ 2 ^ 33) (a b : ℕ) :
    checks b (encodeNat 8 (ipChecksum (a + 8) body).toNat ++ m) = true ↔
      byteSum false m ≡ byteSum false body [MOD 65535] := by
  have hlt : (ipChecksum (a + 8) body).toNat < 256 ^ 8 := (ipChecksum (a + 8) body).toNat_lt
  have hfield : fieldAt (encodeNat 8 (ipChecksum (a + 8) body).toNat ++ m) 0 8
      = (ipChecksum (a + 8) body).toNat := by
    rw [fieldAt, List.drop_zero, List.take_left' (length_encodeNat ..), decodeNat_encodeNat hlt]
  rw [checks, hfield, List.drop_left' (length_encodeNat ..), beq_iff_eq, UInt64.toNat_inj,
    ipChecksum_eq hm, ipChecksum_eq hbody, internetChecksum_eq_iff]

lemma set_eq_self_iff (hi : i < bs.length) : bs.set i v = bs ↔ v = bs[i] := by
  refine ⟨fun h => ?_, fun h => h ▸ List.set_getElem_self hi⟩
  have hget : (bs.set i v)[i]? = bs[i]? := congrArg (·[i]?) h
  rwa [List.getElem?_set_self hi, List.getElem?_eq_getElem hi, Option.some_inj] at hget

lemma set_of_getElem? (h : bs[i]? = some v) : bs.set i v = bs := by
  obtain ⟨hi, hv⟩ := List.getElem?_eq_some_iff.mp h
  exact (set_eq_self_iff hi).mpr hv.symm

/-- **A struct one byte of which was changed** does not pass the check. -/
lemma checks_set (hbody : body.length ≤ 2 ^ 33) (hi : i < (withChecksum a body).length) :
    checks b ((withChecksum a body).set i v) = true ↔ v = (withChecksum a body)[i] := by
  set sum := encodeNat 8 (ipChecksum (a + 8) body).toNat
  have hsum : sum.length = 8 := length_encodeNat ..
  rcases Nat.lt_or_ge i 8 with hlt | hge
  · -- the checksum itself was changed
    have hset : (withChecksum a body).set i v = sum.set i v ++ body :=
      List.set_append_left i v (hsum ▸ hlt)
    have hfield : fieldAt (sum.set i v ++ body) 0 8 = decodeNat (sum.set i v) := by
      rw [fieldAt, List.drop_zero, List.take_left' (by rw [List.length_set, hsum])]
    have hself : decodeNat sum = (ipChecksum (a + 8) body).toNat :=
      decodeNat_encodeNat (ipChecksum (a + 8) body).toNat_lt
    rw [hset, checks, hfield, List.drop_left' (by rw [List.length_set, hsum]), beq_iff_eq,
      ipChecksum_eq hbody, ← ipChecksum_eq hbody (a + 8), ← hself, eq_comm,
      decodeNat_inj (List.length_set ..), set_eq_self_iff (hsum ▸ hlt)]
    exact (congrArg (v = ·) (List.getElem_append_left (hsum ▸ hlt)).symm).to_iff
  · have hset : (withChecksum a body).set i v = sum ++ body.set (i - 8) v := by
      rw [withChecksum, List.set_append_right i v (hsum ▸ hge), hsum]
    have hi' : i - 8 < body.length := by
      rw [length_withChecksum] at hi
      omega
    rw [hset, checks_iff hbody (by rwa [List.length_set]), byteSum_set_modEq_iff false hi']
    have hget : (withChecksum a body)[i]? = body[i - 8]? := by
      rw [withChecksum, List.getElem?_append_right (hsum ▸ hge), hsum]
    rw [List.getElem?_eq_getElem hi, List.getElem?_eq_getElem hi', Option.some_inj] at hget
    rw [hget]

/-- **A struct two bytes of which were changed**, one after the other: it passes the check if all
their bits were equal and all were flipped. -/
theorem checks_pair (hbody : body.length ≤ 2 ^ 33) (a b : ℕ) {w w' v v' : UInt8}
    (hw : body[i]? = some w) (hw' : body[i + 1]? = some w') (hne : v ≠ w ∨ v' ≠ w') :
    checks b (encodeNat 8 (ipChecksum (a + 8) body).toNat ++ (body.set i v).set (i + 1) v') = true ↔
      (w = 0 ∧ w' = 0) ∧ v = 255 ∧ v' = 255 ∨ (w = 255 ∧ w' = 255) ∧ v = 0 ∧ v' = 0 := by
  obtain ⟨_, hget⟩ := List.getElem?_eq_some_iff.mp hw
  obtain ⟨hi, hget'⟩ := List.getElem?_eq_some_iff.mp hw'
  have hlen : ((body.set i v).set (i + 1) v').length ≤ 2 ^ 33 := by simpa using hbody
  rw [checks_iff hbody hlen, byteSum_pair_modEq_iff false hi, or_iff_right, hget, hget']
  rintro ⟨hv, hv'⟩
  exact hne.elim (fun h => h (hv.trans hget)) (fun h => h (hv'.trans hget'))

/-- The upper half of a number becomes ones. -/
theorem checks_pair_ones :
    checks 0 (encodeNat 8 (ipChecksum 8 [0, 0, 7]).toNat ++ [255, 255, 7]) = true := by
  have hne : (255 : UInt8) ≠ 0 := by simp
  exact (checks_pair (i := 0) (by simp : ([0, 0, 7] : List UInt8).length ≤ 2 ^ 33) 0 0 rfl rfl
    (Or.inl hne)).mpr (Or.inl ⟨⟨rfl, rfl⟩, rfl, rfl⟩)

/-- A struct as it was sent passes, wherever it is read. -/
lemma checks_withChecksum (hbody : body.length ≤ 2 ^ 33) (a b : ℕ) :
    checks b (withChecksum a body) = true := (checks_iff hbody hbody a b).mpr rfl

end Check

/-! ### Fields -/

section Fields

variable {as bs : List UInt8} {offset size n : ℕ}

lemma fieldAt_skip (h : as.length ≤ offset) :
    fieldAt (as ++ bs) offset size = fieldAt bs (offset - as.length) size := by
  rw [fieldAt, fieldAt, List.drop_append, List.drop_eq_nil_of_le h, List.nil_append]

lemma fieldAt_encodeNat (h : n < 256 ^ size) : fieldAt (encodeNat size n ++ bs) 0 size = n := by
  rw [fieldAt, List.drop_zero, List.take_left' (length_encodeNat ..), decodeNat_encodeNat h]

end Fields

/-! ### The request -/

section Request

variable {a b qid i : ℕ} {tid nid v : UInt8} {m : List UInt8}

@[simp] lemma length_connArgBody : (connArgBody qid tid nid).length = 56 := by simp [connArgBody]

lemma length_request : (request a qid tid nid).length = 64 := by
  rw [request, length_withChecksum, length_connArgBody]

lemma setSign_set (hm : 24 ≤ m.length) :
    setSign (m.set i v) = if 24 ≤ i ∧ i < 32 then setSign m else (setSign m).set i v := by
  have htake : (m.take 24).length = 24 := List.length_take_of_le hm
  have hsign : (encodeNat 8 magicNum).length = 8 := length_encodeNat ..
  rw [setSign, setSign, List.take_set, List.drop_set]
  rcases Nat.lt_or_ge i 24 with hlt | hge
  · rw [if_pos (by omega), if_neg (by omega), List.append_assoc, List.append_assoc,
      List.set_append_left i v (by omega)]
  · rw [List.set_eq_of_length_le (by omega)]
    by_cases h32 : i < 32
    · rw [if_pos h32, if_pos ⟨hge, h32⟩]
    · rw [if_neg h32, if_neg fun h => h32 h.2, List.set_append_right i v (by simp; omega)]
      simp [htake]

/-- The request, cut at its signature. -/
lemma request_eq (a qid : ℕ) (tid nid : UInt8) :
    request a qid tid nid
      = (encodeNat 8 (ipChecksum (a + 8) (connArgBody qid tid nid)).toNat ++ encodeNat 8 qid
          ++ [tid, nid] ++ List.replicate 6 0) ++ encodeNat 8 magicNum ++ List.replicate 32 0 := by
  rw [request, withChecksum, connArgBody]
  simp only [List.append_assoc]

lemma setSign_append {front sign back : List UInt8} (hfront : front.length = 24)
    (hsign : sign.length = 8) :
    setSign (front ++ sign ++ back) = front ++ encodeNat 8 magicNum ++ back := by
  have hboth : (front ++ sign).length = 32 := by simp [hfront, hsign]
  rw [setSign, List.drop_left' hboth, List.append_assoc front sign, List.take_left' hfront]

/-- The request has the signature that is set. -/
lemma setSign_request : setSign (request a qid tid nid) = request a qid tid nid := by
  rw [request_eq]
  exact setSign_append (by simp) (length_encodeNat ..)

lemma fieldAt_request (hqid : qid < 2 ^ 64) : fieldAt (request a qid tid nid) 8 8 = qid := by
  rw [request, withChecksum, connArgBody, fieldAt_skip (by simp), length_encodeNat]
  simp only [List.append_assoc]
  exact fieldAt_encodeNat hqid

/-- **A request that was changed**: whatever byte of it was, what is read in it is the id that was
sent, and it is read if the byte is one of the signature. -/
lemma recvThreadReads_set (hqid : qid < 2 ^ 64) (hi : i < 64) (a b : ℕ) (tid nid v : UInt8) :
    recvThreadReads b ((request a qid tid nid).set i v)
      = if 24 ≤ i ∧ i < 32 ∨ (request a qid tid nid)[i]? = some v then some qid else none := by
  have hlen : (request a qid tid nid).length = 64 := length_request
  have hi' : i < (request a qid tid nid).length := hlen ▸ hi
  have hbody : (connArgBody qid tid nid).length ≤ 2 ^ 33 := by simp
  have hpass : checks b (request a qid tid nid) = true := checks_withChecksum hbody a b
  have hset : checks b ((request a qid tid nid).set i v) = true
      ↔ (request a qid tid nid)[i]? = some v := by
    rw [List.getElem?_eq_getElem hi', Option.some_inj, eq_comm (a := (request a qid tid nid)[i])]
    exact checks_set hbody hi'
  rw [recvThreadReads, setSign_set (by omega), setSign_request]
  by_cases hsign : 24 ≤ i ∧ i < 32
  · rw [if_pos hsign, if_pos hpass, if_pos (Or.inl hsign), fieldAt_request hqid]
  · rw [if_neg hsign]
    by_cases hv : (request a qid tid nid)[i]? = some v
    · rw [if_pos (hset.mpr hv), if_pos (Or.inr hv), set_of_getElem? hv, fieldAt_request hqid]
    · rw [if_neg fun h => hv (hset.mp h), if_neg]
      rintro (h | h)
      · exact hsign h
      · exact hv h

end Request

/-! ### The reply -/

section Reply

variable {a b i : ℕ} {v : UInt8} {region : MemoryRegion} {lid qpn gid : ℕ}
    {padding : Fin 14 → UInt8}

/-- The numbers fit into their fields. -/
structure FitsAttr (region : MemoryRegion) (lid qpn gid : ℕ) : Prop where
  buf : region.buf < 256 ^ 8
  bufSize : region.bufSize < 256 ^ 4
  rkey : region.rkey < 256 ^ 4
  lid : lid < 256 ^ 2
  qpn : qpn < 256 ^ 8
  gid : gid < 256 ^ 16

@[simp] lemma length_qpAttrBody : (qpAttrBody region lid qpn gid padding).length = 56 := by
  simp [qpAttrBody]

/-- **The attributes are read as they were sent.** -/
lemma qpAttrOf_withChecksum (h : FitsAttr region lid qpn gid) (a : ℕ) (padding : Fin 14 → UInt8) :
    qpAttrOf (withChecksum a (qpAttrBody region lid qpn gid padding))
      = ⟨some region, lid, qpn, gid⟩ := by
  have hpad : ((List.ofFn padding).take 6).length = 6 := by simp
  rw [qpAttrOf, withChecksum, qpAttrBody]
  generalize (List.ofFn padding).take 6 = pad at hpad
  simp only [List.append_assoc]
  simp [fieldAt_skip, hpad, fieldAt_encodeNat h.buf, fieldAt_encodeNat h.bufSize,
    fieldAt_encodeNat h.rkey, fieldAt_encodeNat h.lid, fieldAt_encodeNat h.qpn,
    fieldAt_encodeNat h.gid]

/-- A reply is a status, 15 more bytes and a struct. -/
lemma exists_front (status : UInt8) (qid : ℕ) : ∃ front : List UInt8, front.length = 15 ∧
    ∀ s, replyHeader status qid ++ s = status :: front ++ s :=
  ⟨List.replicate 7 0 ++ encodeNat 8 qid, by simp, fun _ => rfl⟩

lemma reply_granted {qid : ℕ} {qp : Option Qp} (h : grants qid qp = true) (attr : List UInt8) :
    ∃ front : List UInt8, front.length = 15 ∧ reply qid qp attr = tcpSucc :: front ++ attr := by
  cases qp with
  | none => cases h
  | some qp =>
      have h : (!isUd qid || qp.inited) = true := h
      by_cases hud : isUd qid = true
      · obtain ⟨front, hlen, heq⟩ := exists_front tcpSucc qid
        have hinited : qp.inited = true := by simpa [hud] using h
        exact ⟨front, hlen, by rw [← heq, reply, if_pos hud, if_pos hinited]⟩
      · obtain ⟨front, hlen, heq⟩ := exists_front tcpSucc 0
        exact ⟨front, hlen, by rw [← heq, reply, if_neg hud]⟩

lemma reply_refused {qid : ℕ} {qp : Option Qp} (h : grants qid qp = false) (attr : List UInt8) :
    ∃ front : List UInt8, front.length = 15 ∧
      reply qid qp attr = tcpFail :: front ++ List.replicate 64 0 := by
  cases qp with
  | none =>
      obtain ⟨front, hlen, heq⟩ := exists_front tcpFail 0
      exact ⟨front, hlen, heq _⟩
  | some qp =>
      have h : (!isUd qid || qp.inited) = false := h
      obtain ⟨hud, hinited⟩ := Bool.or_eq_false_iff.mp h
      obtain ⟨front, hlen, heq⟩ := exists_front tcpFail qid
      exact ⟨front, hlen, by
        rw [← heq, reply, if_pos (by simpa using hud), if_neg (by simp [hinited])]⟩

/-- A node refuses exactly the requests that are not granted. -/
theorem answer_eq_reply (d : Device) (qps : ℕ → Option Qp) (qid : ℕ) :
    answer d qps qid
      = if grants qid (qps qid) then .tcpSucc (d.getLocalQpAttr qid) else .tcpFail := by
  rw [answer]
  cases qps qid with
  | none => rfl
  | some qp => cases hud : isUd qid <;> cases hinited : qp.inited <;> simp [grants, hud, hinited]

/-- What becomes of a reply with a struct. -/
lemma connectRcReads_cons (s : List UInt8) {front : List UInt8} (hfront : front.length = 15) (b : ℕ)
    (status : UInt8) :
    connectRcReads b (status :: front ++ s)
      = if status = tcpSucc then if checks b s then .connected (qpAttrOf s) else .aborted
        else if status = tcpFail then .refused else .aborted := by
  have hdrop : (status :: front ++ s).drop 16 = s := List.drop_left' (by simp [hfront])
  have hhead : (status :: front ++ s).head? = some status := rfl
  rw [connectRcReads, hdrop, hhead]
  simp only [Option.some_inj]

/-- **A reply that was changed**: whatever byte of it was, a connection is made with the attributes
that were sent, or with none. -/
lemma connectRcReads_set {qid : ℕ} {qp : Option Qp} (hqp : grants qid qp = true)
    (h : FitsAttr region lid qpn gid) (hi : i < 80) (a b : ℕ) (padding : Fin 14 → UInt8)
    (v : UInt8) :
    connectRcReads b
        ((reply qid qp (withChecksum a (qpAttrBody region lid qpn gid padding))).set i v)
      = if i = 0 ∧ v = tcpFail then .refused
        else if i ≠ 0 ∧ i < 16 ∨
          (reply qid qp (withChecksum a (qpAttrBody region lid qpn gid padding)))[i]? = some v then
          .connected ⟨some region, lid, qpn, gid⟩
        else .aborted := by
  set s := withChecksum a (qpAttrBody region lid qpn gid padding) with hs
  have hlen : s.length = 64 := by rw [hs, length_withChecksum, length_qpAttrBody]
  have hbody : (qpAttrBody region lid qpn gid padding).length ≤ 2 ^ 33 := by simp
  have hpass : checks b s = true := checks_withChecksum hbody a b
  have hattr : qpAttrOf s = ⟨some region, lid, qpn, gid⟩ := qpAttrOf_withChecksum h a padding
  obtain ⟨front, hfront, hreply⟩ := reply_granted hqp s
  rw [hreply]
  rcases Nat.lt_or_ge i 16 with hlt | hge
  · cases i with
    | zero =>
        have hset : (tcpSucc :: front ++ s).set 0 v = v :: front ++ s := rfl
        have hget : (tcpSucc :: front ++ s)[0]? = some v ↔ v = tcpSucc := by simp [eq_comm]
        rw [hset, connectRcReads_cons s hfront b v, hpass, hattr]
        simp only [hget]
        by_cases hv : v = tcpSucc
        · simp [hv, show tcpSucc ≠ tcpFail by decide]
        · simp [hv]
    | succ i =>
        have hset : (tcpSucc :: front ++ s).set (i + 1) v = tcpSucc :: front.set i v ++ s := by
          rw [List.cons_append, List.set_cons_succ, List.set_append_left i v (by omega)]
          rfl
        rw [hset, connectRcReads_cons s ((List.length_set ..).trans hfront) b, hpass, hattr]
        simp [hlt]
  · have hset : (tcpSucc :: front ++ s).set i v = tcpSucc :: front ++ s.set (i - 16) v := by
      rw [List.set_append_right i v (by simpa [hfront] using hge), List.length_cons, hfront]
    have hget : (tcpSucc :: front ++ s)[i]? = s[i - 16]? := by
      rw [List.getElem?_append_right (by simpa [hfront] using hge), List.length_cons, hfront]
    have hi' : i - 16 < s.length := by omega
    have hchecks : checks b (s.set (i - 16) v) = true ↔ s[i - 16]? = some v := by
      rw [List.getElem?_eq_getElem hi', Option.some_inj, eq_comm (a := s[i - 16])]
      exact checks_set hbody hi'
    have hne : i ≠ 0 := by omega
    rw [hset, connectRcReads_cons _ hfront b, hget]
    by_cases hv : s[i - 16]? = some v
    · simp [hne, hv, set_of_getElem? hv, hpass, hattr]
    · simp [hne, hv, mt hchecks.mp hv, Nat.not_lt.mpr hge]

/-- A struct of zeros passes the check. -/
lemma checks_zeros (b : ℕ) : checks b (List.replicate 64 0) = true := by
  have hzero : ipChecksum (b + 8) (List.replicate 56 0) = 0 := by
    rw [ipChecksum_eq (by simp)]
    decide
  have hdrop : (List.replicate 64 (0 : UInt8)).drop 8 = List.replicate 56 0 := rfl
  have hfield : fieldAt (List.replicate 64 0) 0 8 = 0 := by decide
  rw [checks, hdrop, hzero, hfield]
  rfl

/-- **A refusal that was changed** is one still, unless the byte is its status. -/
lemma connectRcReads_refusal_set {qid : ℕ} {qp : Option Qp} (hqp : grants qid qp = false) (i b : ℕ)
    (attr : List UInt8) (v : UInt8) :
    connectRcReads b ((reply qid qp attr).set i v)
      = if i ≠ 0 ∨ v = tcpFail then .refused
        else if v = tcpSucc then .connected ⟨some ⟨0, 0, 0⟩, 0, 0, 0⟩ else .aborted := by
  obtain ⟨front, hfront, hreply⟩ := reply_refused hqp attr
  have hne : tcpFail ≠ tcpSucc := by decide
  rw [hreply]
  cases i with
  | zero =>
      have hset : (tcpFail :: front ++ List.replicate 64 0).set 0 v
          = v :: front ++ List.replicate 64 0 := rfl
      have hattr : qpAttrOf (List.replicate 64 0) = ⟨some ⟨0, 0, 0⟩, 0, 0, 0⟩ := rfl
      rw [hset, connectRcReads_cons _ hfront b v, checks_zeros, hattr]
      by_cases hv : v = tcpSucc
      · simp [hv, hne.symm]
      · simp [hv]
  | succ i =>
      set rest : List UInt8 := front ++ List.replicate 64 0
      have hset : (tcpFail :: rest).set (i + 1) v
          = tcpFail :: (rest.set i v).take 15 ++ (rest.set i v).drop 15 := by
        rw [List.set_cons_succ, List.cons_append, List.take_append_drop]
      have hlen : ((rest.set i v).take 15).length = 15 := by simp [rest, hfront]
      have hcons : tcpFail :: front ++ List.replicate 64 0 = tcpFail :: rest := rfl
      rw [hcons, hset, connectRcReads_cons _ hlen b tcpFail]
      simp [hne]

/-- **Messages one byte of which was changed.** A request is read as it was sent or not at all, and
a reply leads to a connection with the attributes that were sent or to none; but a refusal whose
status was changed leads to one. -/
theorem reads_set {qid : ℕ} (hqid : qid < 2 ^ 64) (h : FitsAttr region lid qpn gid) (a b : ℕ)
    (tid nid : UInt8) (padding : Fin 14 → UInt8) (v : UInt8) :
    (∀ i < 64, recvThreadReads b ((request a qid tid nid).set i v)
      = if 24 ≤ i ∧ i < 32 ∨ (request a qid tid nid)[i]? = some v then some qid else none) ∧
    (∀ qp, grants qid qp = true → ∀ i < 80,
      connectRcReads b
          ((reply qid qp (withChecksum a (qpAttrBody region lid qpn gid padding))).set i v)
        = if i = 0 ∧ v = tcpFail then .refused
          else if i ≠ 0 ∧ i < 16 ∨
            (reply qid qp (withChecksum a (qpAttrBody region lid qpn gid padding)))[i]?
              = some v then
            .connected ⟨some region, lid, qpn, gid⟩
          else .aborted) ∧
    ∀ qp attr, grants qid qp = false → ∀ i < 80, connectRcReads b ((reply qid qp attr).set i v)
      = if i ≠ 0 ∨ v = tcpFail then .refused
        else if v = tcpSucc then .connected ⟨some ⟨0, 0, 0⟩, 0, 0, 0⟩ else .aborted :=
  ⟨fun _ hi => recvThreadReads_set hqid hi a b tid nid v,
    fun _ hqp _ hi => connectRcReads_set hqp h hi a b padding v,
    fun _ attr hqp i _ => connectRcReads_refusal_set hqp i b attr v⟩

/-- Messages for the first id that counts as one of a datagram queue pair: a byte of the id is
changed, a byte of the signature, a byte of a number, and the status of a refusal. -/
theorem reads_set_bytes : recvThreadReads 0 ((request 0 85536 200 1).set 8 27) = none ∧
    recvThreadReads 0 ((request 0 85536 200 1).set 24 27) = some 85536 ∧
    connectRcReads 0 ((reply 85536 (some ⟨200, 1, true, none⟩)
      (withChecksum 0 (qpAttrBody ⟨4096, 8, 5⟩ 1 9 3 fun _ => 0))).set 56 27) = .aborted ∧
    connectRcReads 0 ((reply 85536 (some ⟨200, 1, false, none⟩) []).set 0 27)
      = .connected ⟨some ⟨0, 0, 0⟩, 0, 0, 0⟩ := by
  obtain ⟨hrequest, hreply, hrefusal⟩ := reads_set (by omega : 85536 < 2 ^ 64)
    (⟨by decide, by decide, by decide, by decide, by decide, by decide⟩ :
        FitsAttr ⟨4096, 8, 5⟩ 1 9 3)
    0 0 200 1 (fun _ => 0) 27
  exact ⟨(hrequest 8 (by omega)).trans (if_neg (by decide)),
    (hrequest 24 (by omega)).trans (if_pos (Or.inl (by omega))),
    (hreply _ (by decide) 56 (by omega)).trans ((if_neg (by omega)).trans (if_neg (by decide))),
    (hrefusal _ [] (by decide) 0 (by omega)).trans ((if_neg (by decide)).trans (if_pos rfl))⟩

end Reply

end Connect

end RedAnns
