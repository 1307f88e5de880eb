import Rxs.L1Encoding.Reparse
import Rxs.L3Protocol.DaemonReject

/-!
# A result in the text of its template

`submit` writes the nonce at an offset that only the algorithm decides, and the
signature behind it if the template object has one. The nonce is where the header
has it if the timestamp is a varint of the right length, five bytes for all coins
but one; the object may have the signature of an earlier template.

* `parseJob_taken`: the client after a template is taken.
* `patch_step`: what one result does to the text.
* **`submit_right`**: every result of the job is sent rightly if and only if the
  offset is right, the signature is the template's own, and the parser looks at the
  two once, as it does where every length of the template fits.
* `submit_right_fails`: a timestamp of four bytes.
-/
namespace Rxs.L3.DaemonSubmit

open Rxs.Core Rxs.BlockTemplate Rxs.BlobReader Rxs.L1.ParseHistory Rxs.L1.ParseForward
  Rxs.L1.Header Rxs.L1.Reparse Rxs.DaemonClient Rxs.L3.DaemonReject

/-! ## A template that is taken -/

/-- The algorithm of the client's jobs. -/
def jobAlgorithm (c : DaemonClient) : Algorithm :=
  if c.coin.isValid then c.coin.algorithm else c.algorithm

/-- The client `c'` took the template with the bytes `b`. -/
structure Taken (p : Platform) (fuel : Nat) (c c' : DaemonClient) (b : Bytes) : Prop where
  template : IsTemplate c'.blocktemplateStr b
  bound : c'.blocktemplateStr.length < 2 ^ 32
  accepted : (parse Scanner.wrap p fuel c.blocktemplate b c.coin false).rc = .returned true
  blocktemplate :
    c'.blocktemplate = (parse Scanner.wrap p fuel c.blocktemplate b c.coin false).t
  coin : c'.coin = c.coin
  id : c'.currentJobId = c'.job.id
  algorithm : c'.job.algorithm = jobAlgorithm c
  signature : c'.job.hasMinerSignature = c'.blocktemplate.hasMinerSignature

section
variable {keys : Keys} {p : Platform} {outside : UInt8 → Option UInt64} {fuel : Nat}
  {c : DaemonClient} {params : Params} {jobId : String} {now : Nat}

theorem signatureKeys_isSome {w w' : WalletAddress} {k : Option EphemeralKeys}
    (h : signatureKeys keys p outside c w = .ok k w') :
    k.isSome = c.blocktemplate.hasMinerSignature := by
  unfold signatureKeys at h
  cases hs : c.blocktemplate.hasMinerSignature with
  | false =>
    rw [if_neg (by rw [hs]; exact Bool.false_ne_true)] at h
    cases h
    rfl
  | true =>
    rw [if_pos hs] at h
    change EStateM.bind (ephemeralKeys keys p outside c) _ w = _ at h
    unfold EStateM.bind at h
    split at h
    · cases h
      rfl
    · cases h

theorem takeJob_accepted {text : Bytes} {k : Option EphemeralKeys}
    (h : (takeJob c params text k jobId now).2 = .accepted) :
    let c' := (takeJob c params text k jobId now).1
    c'.blocktemplate = c.blocktemplate ∧ c'.coin = c.coin ∧ c'.blocktemplateStr = text ∧
      c'.currentJobId = c'.job.id ∧ c'.job.algorithm = jobAlgorithm c ∧
      c'.job.hasMinerSignature = k.isSome := by
  intro c'
  have hdef : c' = (takeJob c params text k jobId now).1 := rfl
  clear_value c'
  unfold takeJob at h hdef
  simp only at h hdef
  rcases Job.setBlob_cases { algorithm := jobAlgorithm c, ephKeys := k } c.blockhashingblob with
    ⟨b, hset⟩ | ⟨hex, w, n, -, -, hset⟩
  · unfold jobAlgorithm at hset
    rw [hset] at h
    cases h
  · unfold jobAlgorithm at hset
    rw [hset] at hdef
    simp only at hdef
    obtain ⟨seed, hseed⟩ := Job.setSeedHash_frame
      { algorithm := jobAlgorithm c, ephKeys := k, blob := w, nicehash := n } params.seed_hash
    unfold jobAlgorithm at hseed
    rw [hseed] at hdef
    rw [hdef]
    exact ⟨rfl, rfl, rfl, rfl, rfl, rfl⟩

/-- A text that the parser accepts is a template. -/
theorem parseText_returned {t : BlockTemplate} {text : Bytes} {coin : Coin} {hashes : Bool}
    (h : (parseText p fuel t text coin hashes).rc = .returned true) : ∃ b, IsTemplate text b := by
  unfold parseText at h
  by_cases hmin : text.length < kMinSize * 2
  · rw [if_pos hmin] at h
    cases h
  · rw [if_neg hmin] at h
    rcases hhex : Cvt.fromHex (text.length / 2) text with ⟨w, _ | _⟩
    · simp only [hhex] at h
      cases h
    · exact ⟨w, Nat.not_lt.mp hmin, hhex⟩

/-- **A template that is taken**: its text, the object and the job are of one blob. -/
theorem parseJob_taken (h : (parseJob keys p outside fuel c params jobId now).2 = .accepted) :
    ∃ text b, params.blocktemplate_blob = some text ∧ IsTemplate text b ∧
      Taken p fuel c (parseJob keys p outside fuel c params jobId now).1 b := by
  generalize hr : parseJob keys p outside fuel c params jobId now = r at h ⊢
  unfold parseJob at hr
  cases hb : params.blocktemplate_blob with
  | none =>
    rw [hb] at hr
    cases hr
    cases h
  | some text =>
    rw [hb] at hr
    simp only at hr
    cases hrc : (parseText p fuel c.blocktemplate text c.coin false).rc with
    | undefined => rw [hrc] at hr; cases hr; cases h
    | fuel => rw [hrc] at hr; cases hr; cases h
    | returned rc =>
      cases rc with
      | false => rw [hrc] at hr; cases hr; cases h
      | true =>
        obtain ⟨b, ht⟩ := parseText_returned hrc
        obtain ⟨-, -, heq⟩ := parseText_eq p fuel ht c.blocktemplate c.coin false
        rw [hrc] at hr
        simp only at hr
        cases hk : signatureKeys keys p outside _ c.walletAddress with
        | error e w =>
          rw [hk] at hr
          cases e <;> (cases hr; cases h)
        | ok k w =>
          rw [hk] at hr
          rw [← hr] at h ⊢
          obtain ⟨h₁, h₂, h₃, h₄, h₅, h₆⟩ := takeJob_accepted h
          refine ⟨text, b, rfl, ht, ?_, ?_, ?_, ?_, h₂, h₄, h₅, ?_⟩
          · rw [h₃]
            exact ht
          · rw [h₃]
            exact text.2
          · rw [← heq]
            exact hrc
          · rw [h₁, ← heq]
          · rw [h₆, signatureKeys_isSome hk, h₁]

end

/-! ## Results -/

/-- A result of the job: the nonce has 32 bits, and it is signed if the worker is to
sign.
mirrors src/net/JobResult.h:46-77 and src/backend/cpu/CpuWorker.cpp:216-220 -/
structure ForJob (job : Job) (r : JobResult) : Prop where
  jobId : r.jobId = job.id
  nonce : r.nonce.toNat < 2 ^ 32
  signature : r.minerSignature.isSome = (job.hasMinerSignature && job.algorithm = .RX_WOW)

/-- The client after some results. -/
def submits (c : DaemonClient) (rs : List JobResult) : DaemonClient :=
  rs.foldl (fun c r => (c.submit r).1) c

/-- Where the template object has the nonce. -/
def nonceAt (c : DaemonClient) : Nat := (c.blocktemplate (.offset .NONCE_OFFSET)).toNat

/-- The place of the nonce, and of the signature if the template is signed. -/
def Place (c : DaemonClient) (b : Bytes) (i : Nat) : Prop :=
  nonceAt c ≤ i ∧ i < nonceAt c + 4 ∨
    Signs c.coin (b.getD 0 0) ∧ nonceAt c + 4 ≤ i ∧ i < nonceAt c + 4 + 64

/-- What the client sends for a result is the template with the result's nonce: it
decodes, it is parsed to the same template, and differs from it in its place only. -/
structure Right (p : Platform) (fuel : Nat) (c : DaemonClient) (b block b' : Bytes)
    (r : JobResult) : Prop where
  decodes : Cvt.fromHex (block.length / 2) block = (b', true)
  accepted : (parse Scanner.wrap p fuel c.blocktemplate b' c.coin false).rc = .returned true
  members : ∀ m, m ≠ .blob →
    (parse Scanner.wrap p fuel c.blocktemplate b' c.coin false).t m = c.blocktemplate m
  nonce : Bytes.readLE (Bytes.slice b' (nonceAt c) 4) = r.nonce.toNat
  length : b'.length = b.length
  place : ∀ i, b'[i]? ≠ b[i]? → Place c b i

/-- Every result of the job is sent rightly, whatever results were sent before. -/
def AllRight (p : Platform) (fuel : Nat) (c : DaemonClient) (b : Bytes) : Prop :=
  ∀ rs, (∀ r ∈ rs, ForJob c.job.toJob r) → ∀ r, ForJob c.job.toJob r →
    ∃ block b', ((submits c rs).submit r).2 = .sent block ∧ Right p fuel c b block b' r

/-- The timestamp has the length the algorithm's offset asks for, and the object had
no signature unless the template has one. -/
structure Good (c : DaemonClient) (b : Bytes) : Prop where
  offset : ∃ L, varintLength (b.drop 2) = some L ∧
    34 + L = Job.nonceOffset { algorithm := jobAlgorithm c }
  signature : c.blocktemplate.hasMinerSignature = true → Signs c.coin (b.getD 0 0)

/-- The parser looks at the place once: whatever is in it, the template is accepted
and gives the object the same members. -/
def Unread (p : Platform) (fuel : Nat) (c : DaemonClient) (b : Bytes) : Prop :=
  ∀ b' : Bytes, b'.length = b.length → (∀ i, b'[i]? ≠ b[i]? → Place c b i) →
    (parse Scanner.wrap p fuel c.blocktemplate b' c.coin false).rc = .returned true ∧
      ∀ m, m ≠ .blob →
        (parse Scanner.wrap p fuel c.blocktemplate b' c.coin false).t m = c.blocktemplate m

/-! ## One result -/

/-- The bytes with a nonce and a signature in them. -/
def patched (n : Nat) (b nonce : Bytes) : Option Bytes → Bytes
  | none => Bytes.writeAt b n nonce
  | some sig => Bytes.writeAt (Bytes.writeAt b n nonce) (n + 4) sig

/-- The signature that is written. -/
def sigOf (c : DaemonClient) (r : JobResult) : Option Bytes :=
  if c.blocktemplate.hasMinerSignature then r.minerSignature.map (·.1) else none

/-- There is a signature if one is to be written, and the patch is in the text. -/
def Fitting (c : DaemonClient) (b : Bytes) (r : JobResult) : Prop :=
  c.job.nonceOffset + 4 ≤ b.length ∧ (c.blocktemplate.hasMinerSignature = true →
    r.minerSignature.isSome ∧ c.job.nonceOffset + 4 + 64 ≤ b.length)

theorem overwrite_pairs {data b : Bytes} (h : Cvt.pairs data = some b) (bin : Bytes) (off : Nat) :
    (off + bin.length ≤ b.length ∧ ∃ d, overwrite data off bin = some d ∧
        Cvt.pairs d = some (Bytes.writeAt b off bin)) ∨
      (b.length < off + bin.length ∧ overwrite data off bin = none) := by
  have hlen := Cvt.length_pairs h
  unfold overwrite
  by_cases hfit : off + bin.length ≤ b.length
  · rw [if_pos (by omega)]
    exact .inl ⟨hfit, _, rfl, Cvt.hex2bin_writeAt h hfit⟩
  · rw [if_neg (by omega)]
    exact .inr ⟨by omega, rfl⟩

/-- **One result** in the text: its bytes are written over those of the text. -/
theorem patch_step {c : DaemonClient} {b : Bytes} (h : Cvt.pairs c.blocktemplateStr = some b)
    (r : JobResult) :
    (Fitting c b r ∧ ∃ block, c.patch r = some block ∧ Cvt.pairs block =
        some (patched c.job.nonceOffset b (Bytes.le 4 r.nonce.toNat) (sigOf c r))) ∨
      (¬ Fitting c b r ∧ c.patch r = none) := by
  have h4 : (Bytes.le 4 r.nonce.toNat).length = 4 := Bytes.length_le 4 _
  unfold patch Fitting sigOf
  rcases overwrite_pairs h (Bytes.le 4 r.nonce.toNat) c.job.nonceOffset with
    ⟨hfit, d, hd, hp⟩ | ⟨hno, hd⟩
  · rw [h4] at hfit
    rw [hd]
    simp only [Option.bind_eq_bind, Option.bind_some]
    cases hs : c.blocktemplate.hasMinerSignature with
    | false => exact .inl ⟨⟨hfit, nofun⟩, d, rfl, hp⟩
    | true =>
      cases hr : r.minerSignature with
      | none => exact .inr ⟨fun hf => absurd (hf.2 rfl).1 nofun, rfl⟩
      | some sig =>
        have hlen : (Bytes.writeAt b c.job.nonceOffset (Bytes.le 4 r.nonce.toNat)).length =
          b.length := Bytes.length_writeAt (by rw [h4]; exact hfit)
        have hsig := overwrite_pairs hp sig.1 (c.job.nonceOffset + 4)
        rw [hlen, sig.2] at hsig
        rcases hsig with ⟨hfit', d', hd', hp'⟩ | ⟨hno, hd'⟩
        · exact .inl ⟨⟨hfit, fun _ => ⟨rfl, hfit'⟩⟩, d', hd', hp'⟩
        · exact .inr ⟨fun hf => absurd (hf.2 rfl).2 (by omega), hd'⟩
  · rw [h4] at hno
    rw [hd]
    exact .inr ⟨fun hf => absurd hf.1 (by omega), rfl⟩

/-- The length of what is written behind the nonce. -/
def sigSize (sig : Option Bytes) : Nat := (sig.map List.length).getD 0

theorem patched_spec {n : Nat} {b nonce : Bytes} {sig : Option Bytes} (h4 : nonce.length = 4)
    (hfit : n + 4 + sigSize sig ≤ b.length) :
    (patched n b nonce sig).length = b.length ∧
      Bytes.slice (patched n b nonce sig) n 4 = nonce ∧
      ∀ i, i < n ∨ n + 4 + sigSize sig ≤ i → (patched n b nonce sig)[i]? = b[i]? := by
  cases sig with
  | none =>
    have hn : n + nonce.length ≤ b.length := by
      rw [h4]
      exact hfit
    refine ⟨Bytes.length_writeAt hn, ?_, fun i hi => ?_⟩
    · have hs := Bytes.slice_writeAt hn
      rw [h4] at hs
      exact hs
    · have hi : i < n ∨ n + 4 ≤ i := hi
      show (Bytes.writeAt b n nonce)[i]? = b[i]?
      rw [Bytes.getElem?_writeAt hn, if_neg (by omega)]
  | some sig =>
    have hfit : n + 4 + sig.length ≤ b.length := hfit
    have hn : n + nonce.length ≤ b.length := by omega
    have hlen := Bytes.length_writeAt hn
    have hs : n + 4 + sig.length ≤ (Bytes.writeAt b n nonce).length := by omega
    refine ⟨(Bytes.length_writeAt hs).trans hlen, ?_, fun i hi => ?_⟩
    · show Bytes.slice (Bytes.writeAt (Bytes.writeAt b n nonce) (n + 4) sig) n 4 = nonce
      rw [Bytes.slice_writeAt_of_disjoint hs (.inl (Nat.le_refl _))]
      have hs := Bytes.slice_writeAt hn
      rw [h4] at hs
      exact hs
    · have hi : i < n ∨ n + 4 + sig.length ≤ i := hi
      show (Bytes.writeAt (Bytes.writeAt b n nonce) (n + 4) sig)[i]? = b[i]?
      rw [Bytes.getElem?_writeAt hs, if_neg (by omega), Bytes.getElem?_writeAt hn,
        if_neg (by omega)]

/-! ## The law -/

section
variable {p : Platform} {fuel : Nat} {c c' : DaemonClient} {b : Bytes}

/-- What is known of a template that was taken. -/
structure Known (c c' : DaemonClient) (b : Bytes) (L fuel : Nat) : Prop where
  length : b.length < 2 ^ 31
  min : ¬ b.length < kMinSize
  varint : varintLength (b.drop 2) = some L
  fuel : L ≤ fuel
  fit : 38 + L ≤ b.length
  signed : Signs c.coin (b.getD 0 0) → 38 + L + 64 ≤ b.length
  nonce : nonceAt c' = 34 + L
  signature : c'.blocktemplate.hasMinerSignature = true ↔
    Signs c.coin (b.getD 0 0) ∨ c.blocktemplate.hasMinerSignature = true
  text : Cvt.pairs c'.blocktemplateStr = some b
  offset : c'.job.nonceOffset = Job.nonceOffset { algorithm := jobAlgorithm c }

theorem Taken.known (h : Taken p fuel c c' b) : ∃ L, Known c c' b L fuel := by
  obtain ⟨hmin, hlen, -⟩ := parseText_eq p fuel h.template c.blocktemplate c.coin false
  have hbound := h.bound
  have hb : b.length < 2 ^ 63 := by omega
  obtain ⟨L, hL, hfuel, hfit, hsigned, hnonce⟩ := accepted_front adds_wrap hb hmin h.accepted
  refine ⟨L, by omega, hmin, hL, hfuel, hfit, hsigned, ?_, ?_,
    (Cvt.fromHex_eq.mp h.template.2).2.1, ?_⟩
  · unfold nonceAt
    rw [h.blocktemplate, hnonce, UInt32.toNat_ofNat']
    omega
  · rw [h.blocktemplate, parse_signature adds_wrap p fuel _ hb _ _ hmin h.accepted]
    refine or_congr_left ⟨fun hs => hs.1, fun hs => ⟨hs, L, hL, hsigned hs⟩⟩
  · unfold Job.nonceOffset
    rw [h.algorithm]

/-- The client after some results: only the text is another, and that is the
template but for what is patched. -/
structure Inv (c' : DaemonClient) (b : Bytes) (n hi : Nat) (d : DaemonClient) : Prop where
  same : d = { c' with blocktemplateStr := d.blocktemplateStr }
  text : ∃ b', Cvt.pairs d.blocktemplateStr = some b' ∧ Patched b b' n hi

/-- The signature that is written is as long as that of the template. -/
theorem sigSize_eq {d : DaemonClient} {r : JobResult} {L : Nat}
    (hsig : d.blocktemplate.hasMinerSignature = true ↔ Signs c.coin (b.getD 0 0))
    (hr : Signs c.coin (b.getD 0 0) → r.minerSignature.isSome = true) :
    34 + L + 4 + sigSize (sigOf d r) = patchEnd b c.coin L := by
  unfold patchEnd sigOf
  by_cases hs : Signs c.coin (b.getD 0 0)
  · obtain ⟨sig, he⟩ := Option.isSome_iff_exists.mp (hr hs)
    rw [if_pos (hsig.mpr hs), if_pos hs, he]
    show 34 + L + 4 + sig.1.length = _
    rw [sig.2]
    omega
  · rw [if_neg (fun h => hs (hsig.mp h)), if_neg hs]
    show 34 + L + 4 + 0 = _
    omega

/-- **A result** leaves the text with its nonce in it. -/
theorem inv_step {L : Nat} (h : Taken p fuel c c' b) (hk : Known c c' b L fuel) (hg : Good c b)
    {d : DaemonClient} (hd : Inv c' b (34 + L) (patchEnd b c.coin L) d) {r : JobResult}
    (hr : ForJob c'.job.toJob r) :
    ∃ block b', d.submit r = ({ d with blocktemplateStr := block }, .sent block) ∧
      Cvt.pairs block = some b' ∧ Patched b b' (34 + L) (patchEnd b c.coin L) ∧
      Bytes.slice b' (34 + L) 4 = Bytes.le 4 r.nonce.toNat := by
  obtain ⟨text, b₁, hb₁, hp⟩ := hd
  have hlen := hp.length
  have hfit := hk.fit
  have hn : d.job.nonceOffset = 34 + L := by
    obtain ⟨L', hL', hoff⟩ := hg.offset
    rw [hk.varint] at hL'
    cases hL'
    rw [text]
    exact hk.offset.trans hoff.symm
  have hsig : d.blocktemplate.hasMinerSignature = true ↔ Signs c.coin (b.getD 0 0) := by
    rw [text, hk.signature]
    exact or_iff_left_of_imp hg.signature
  have hsome : Signs c.coin (b.getD 0 0) → r.minerSignature.isSome = true := by
    intro hs
    have hwow : c'.job.algorithm = .RX_WOW := by
      rw [h.algorithm]
      unfold jobAlgorithm
      rw [hs.1]
      rfl
    rw [hr.signature, h.signature, hk.signature.mpr (.inl hs), hwow]
    rfl
  have hsize := sigSize_eq (L := L) hsig hsome
  have hend : 34 + L + 4 + sigSize (sigOf d r) ≤ b₁.length := by
    have hsigned := hk.signed
    rw [hsize, hlen]
    unfold patchEnd
    split
    · rename_i hs
      have := hsigned hs
      omega
    · omega
  have hfitting : Fitting d b₁ r := by
    unfold Fitting
    rw [hn]
    refine ⟨by omega, fun hs => ⟨hsome (hsig.mp hs), ?_⟩⟩
    have := hk.signed (hsig.mp hs)
    omega
  rcases patch_step hb₁ r with ⟨-, block, hblock, hpairs⟩ | ⟨hno, -⟩
  · obtain ⟨hl, hnonce, hout⟩ := patched_spec (n := 34 + L) (Bytes.length_le 4 r.nonce.toNat) hend
    rw [hn] at hpairs
    refine ⟨block, _, ?_, hpairs, ⟨hl.trans hlen, fun i hi => ?_⟩, hnonce⟩
    · have hid : r.jobId = d.currentJobId := by
        rw [text]
        exact hr.jobId.trans h.id.symm
      unfold submit
      rw [if_neg (not_not.mpr hid), hblock]
    · rw [hout i (by rw [hsize]; omega)]
      exact hp.outside i (by omega)
  · exact absurd hfitting hno

theorem inv_submits {L : Nat} (h : Taken p fuel c c' b) (hk : Known c c' b L fuel)
    (hg : Good c b) {rs : List JobResult} (hrs : ∀ r ∈ rs, ForJob c'.job.toJob r) :
    Inv c' b (34 + L) (patchEnd b c.coin L) (submits c' rs) := by
  have hrun : ∀ d, Inv c' b (34 + L) (patchEnd b c.coin L) d →
      Inv c' b (34 + L) (patchEnd b c.coin L) (submits d rs) := by
    induction rs with
    | nil => exact fun d hd => hd
    | cons r rs ih =>
      intro d hd
      obtain ⟨block, b', hs, hb', hp, -⟩ := inv_step h hk hg hd (hrs r List.mem_cons_self)
      refine ih (fun r hr => hrs r (List.mem_cons_of_mem _ hr)) (d.submit r).1 ?_
      rw [hs]
      refine ⟨?_, b', hb', hp⟩
      rw [hd.same]
  exact hrun c' ⟨rfl, b, hk.text, rfl, fun _ _ => rfl⟩

/-- What is outside of the place is outside of the patch. -/
theorem place_iff {L : Nat} (h : Taken p fuel c c' b) (hk : Known c c' b L fuel) (i : Nat) :
    Place c' b i ↔ 34 + L ≤ i ∧ i < patchEnd b c.coin L := by
  unfold Place patchEnd
  rw [hk.nonce, h.coin]
  by_cases hs : Signs c.coin (b.getD 0 0)
  · rw [if_pos hs, and_iff_right hs]
    omega
  · rw [if_neg hs, or_iff_left fun hi => hs hi.1]
    omega

/-- Where every length of the template fits, the parser looks at the place once. -/
theorem unread_of_fits {L : Nat} (h : Taken p fuel c c' b) (hk : Known c c' b L fuel)
    (hf : ∀ a ∈ (parse Scanner.exact p fuel c.blocktemplate b c.coin false).log, a.Fits) :
    Unread p fuel c' b := by
  intro b' hlen hplace
  have hlt := hk.length
  have hfit := hk.fit
  have hoff : 2 + L + 32 = 34 + L := by omega
  have hp : Patched b b' (2 + L + 32) (patchEnd b c.coin L) := by
    refine ⟨hlen, fun i hi => ?_⟩
    by_contra hne
    have := (place_iff h hk i).mp (hplace i hne)
    omega
  obtain ⟨hrc, hsh⟩ := reparse (u := c'.blocktemplate) (by omega) (by omega) hk.varint hk.fuel
    hfit hp hk.min hf
  rw [h.coin]
  refine ⟨hrc.trans h.accepted, fun m hm => ?_⟩
  by_cases hw : m ∈ (parse Scanner.wrap p fuel c.blocktemplate b c.coin false).written
  · rw [h.blocktemplate] at hsh ⊢
    exact hsh.known m hw
  · refine (hsh.right m hw).trans ?_
    by_cases hc : m = .coin
    · subst hc
      have hl := hsh.left .coin hw
      rw [h.blocktemplate]
      exact hl.symm
    · show Function.update (Function.update c'.blocktemplate .blob b') .coin c.coin m = _
      rw [Function.update_of_ne hc, Function.update_of_ne hm]

/-- **Enough**: every result of the job is sent rightly. -/
theorem allRight_of_good {L : Nat} (h : Taken p fuel c c' b) (hk : Known c c' b L fuel)
    (hg : Good c b) (hu : Unread p fuel c' b) : AllRight p fuel c' b := by
  intro rs hrs r hr
  obtain ⟨block, b', hs, hb', hp, hnonce⟩ := inv_step h hk hg (inv_submits h hk hg hrs) hr
  have hfit := hk.fit
  have hbl := Cvt.length_pairs hb'
  have hpl := hp.length
  have hplace : ∀ i, b'[i]? ≠ b[i]? → Place c' b i := by
    intro i hi
    have hin : ¬ (i < 34 + L ∨ patchEnd b c.coin L ≤ i) := fun ho => hi (hp.outside i ho)
    exact (place_iff h hk i).mpr (by omega)
  obtain ⟨hrc, hmem⟩ := hu b' hpl hplace
  refine ⟨block, b', by rw [hs], ?_, hrc, hmem, ?_, hpl, hplace⟩
  · refine Cvt.fromHex_eq.mpr ⟨?_, hb', by omega⟩
    rintro rfl
    have h0 : ([] : Bytes).length = 0 := rfl
    omega
  · have hlt : r.nonce.toNat < 256 ^ 4 := hr.nonce
    rw [hk.nonce, hnonce, Bytes.readLE_le, Nat.mod_eq_of_lt hlt]

/-! ## Only if -/

/-- A result of the job with this nonce and, if one is asked for, this signature. -/
def resultOf (job : Job) (nonce : Bytes) (sig : { sig : Bytes // sig.length = 64 }) :
    JobResult where
  jobId := job.id
  nonce := UInt64.ofNat (Bytes.readLE nonce)
  minerSignature := if job.hasMinerSignature && job.algorithm = .RX_WOW then some sig else none

section
variable {nonce : Bytes} (sig : { sig : Bytes // sig.length = 64 })

theorem toNat_resultOf (job : Job) (h4 : nonce.length = 4) :
    (resultOf job nonce sig).nonce.toNat = Bytes.readLE nonce := by
  have hlt := Bytes.readLE_lt nonce
  rw [h4] at hlt
  unfold resultOf
  rw [UInt64.toNat_ofNat']
  omega

theorem forJob_resultOf (job : Job) (h4 : nonce.length = 4) :
    ForJob job (resultOf job nonce sig) := by
  have hlt := Bytes.readLE_lt nonce
  refine ⟨rfl, ?_, ?_⟩
  · rw [toNat_resultOf sig job h4]
    rw [h4] at hlt
    exact hlt
  · unfold resultOf
    by_cases hs : (job.hasMinerSignature && decide (job.algorithm = .RX_WOW)) = true
    · rw [if_pos hs, hs]
      rfl
    · rw [if_neg hs, Bool.not_eq_true _ |>.mp hs]
      rfl

/-- **The first result** of the job. -/
theorem AllRight.first (ha : AllRight p fuel c b) (ht : Cvt.pairs c.blocktemplateStr = some b)
    (hid : c.currentJobId = c.job.id) (h4 : nonce.length = 4) :
    Fitting c b (resultOf c.job.toJob nonce sig) ∧
      ∃ block, Right p fuel c b block (patched c.job.nonceOffset b nonce
        (sigOf c (resultOf c.job.toJob nonce sig))) (resultOf c.job.toJob nonce sig) := by
  have hfor := forJob_resultOf sig c.job.toJob h4
  have hn : Bytes.le 4 (resultOf c.job.toJob nonce sig).nonce.toNat = nonce := by
    rw [toNat_resultOf _ _ h4, ← h4]
    exact Bytes.le_readLE nonce
  obtain ⟨block, b', hs, hright⟩ := ha [] nofun _ hfor
  generalize resultOf c.job.toJob nonce sig = r at hfor hn hs hright ⊢
  have hs : (c.submit r).2 = .sent block := hs
  have hjob : ¬ r.jobId ≠ c.currentJobId := not_not.mpr (hfor.jobId.trans hid.symm)
  unfold submit at hs
  rw [if_neg hjob] at hs
  rcases patch_step ht r with ⟨hf, block', hp, hpairs⟩ | ⟨-, hp⟩
  · rw [hp] at hs
    cases hs
    have hb' := (Cvt.fromHex_eq.mp hright.decodes).2.1
    rw [hpairs, hn] at hb'
    cases hb'
    exact ⟨hf, block, hright⟩
  · rw [hp] at hs
    cases hs

end

/-- A byte that two places do not have. -/
theorem exists_other (y z : Option UInt8) : ∃ x, some x ≠ y ∧ some x ≠ z := by
  by_contra hno
  have h : ∀ x, some x = y ∨ some x = z := by
    intro x
    by_contra hx
    exact hno ⟨x, fun hy => hx (.inl hy), fun hz => hx (.inr hz)⟩
  have h0 := h 0
  have h1 := h 1
  have h2 := h 2
  grind

/-- What is written behind the nonce fits behind it. -/
theorem sigSize_le {d : DaemonClient} {r : JobResult} (hf : Fitting d b r) :
    d.job.nonceOffset + 4 + sigSize (sigOf d r) ≤ b.length := by
  obtain ⟨hfit, hsig⟩ := hf
  unfold sigOf
  cases hs : d.blocktemplate.hasMinerSignature with
  | false => exact hfit
  | true =>
    obtain ⟨hsome, hfit⟩ := hsig hs
    obtain ⟨sig, he⟩ := Option.isSome_iff_exists.mp hsome
    rw [if_pos rfl, he]
    show _ + sig.1.length ≤ _
    rw [sig.2]
    exact hfit

theorem getElem?_of_slice {d e : Bytes} {n k i : Nat} (h : Bytes.slice d n k = e)
    (hi : n ≤ i) (hk : i < n + k) : d[i]? = e[i - n]? := by
  have hn : n + (i - n) = i := by omega
  rw [← h, Bytes.getElem?_slice, if_pos (by omega), hn]

/-- The offset is that of the header. -/
theorem offset_of_allRight {L : Nat} (h : Taken p fuel c c' b) (hk : Known c c' b L fuel)
    (ha : AllRight p fuel c' b) : c'.job.nonceOffset = 34 + L := by
  have hfit := hk.fit
  obtain ⟨x, hxn, hxo⟩ := exists_other b[c'.job.nonceOffset]? b[34 + L]?
  have h4 : (List.replicate 4 x).length = 4 := rfl
  obtain ⟨hf, block, hright⟩ :=
    ha.first ⟨List.replicate 64 x, rfl⟩ hk.text h.id h4
  obtain ⟨hlen, hnonce, hout⟩ := patched_spec h4 (sigSize_le hf)
  generalize patched c'.job.nonceOffset b (List.replicate 4 x) _ = d at hright hlen hnonce hout
  have hslice : Bytes.slice d (34 + L) 4 = List.replicate 4 x := by
    have he := hright.nonce
    rw [toNat_resultOf _ _ h4, hk.nonce] at he
    have hl : (Bytes.slice d (34 + L) 4).length = 4 := Bytes.length_slice (by omega)
    have hb := Bytes.le_readLE (Bytes.slice d (34 + L) 4)
    rw [hl, he] at hb
    exact hb.symm.trans (Bytes.le_readLE (List.replicate 4 x))
  have hle : 34 + L ≤ c'.job.nonceOffset := by
    have hin := getElem?_of_slice hnonce (Nat.le_refl _) (by omega)
    have hne := hright.place c'.job.nonceOffset (by
      rw [hin, Nat.sub_self]
      exact hxn)
    exact ((place_iff h hk _).mp hne).1
  by_contra hne
  have hold := hout (34 + L) (.inl (by omega))
  rw [getElem?_of_slice hslice (Nat.le_refl _) (by omega), Nat.sub_self] at hold
  exact hxo hold

/-- The signature that is written is the last of the patch. -/
theorem slice_patched_signature {n : Nat} {b nonce : Bytes} (sig : Bytes) (h4 : nonce.length = 4)
    (hfit : n + 4 + sig.length ≤ b.length) :
    Bytes.slice (patched n b nonce (some sig)) (n + 4) sig.length = sig := by
  have hl : (Bytes.writeAt b n nonce).length = b.length := Bytes.length_writeAt (by omega)
  exact Bytes.slice_writeAt (by omega)

/-- The signature is the template's own. -/
theorem signature_of_allRight {L : Nat} (h : Taken p fuel c c' b) (hk : Known c c' b L fuel)
    (ha : AllRight p fuel c' b) (hs : c.blocktemplate.hasMinerSignature = true) :
    Signs c.coin (b.getD 0 0) := by
  by_contra hno
  have hoff := offset_of_allRight h hk ha
  have hs' := hk.signature.mpr (.inr hs)
  obtain ⟨x, hx, -⟩ := exists_other b[34 + L + 4]? none
  have h4 : (List.replicate 4 x).length = 4 := rfl
  obtain ⟨hf, block, hright⟩ :=
    ha.first ⟨List.replicate 64 x, rfl⟩ hk.text h.id h4
  obtain ⟨hsome, hfit⟩ := hf.2 hs'
  have hsig : sigOf c' (resultOf c'.job.toJob (List.replicate 4 x) ⟨List.replicate 64 x, rfl⟩) =
      some (List.replicate 64 x) := by
    obtain ⟨sig, he⟩ := Option.isSome_iff_exists.mp hsome
    unfold sigOf
    rw [if_pos hs', he]
    unfold resultOf at he
    simp only at he
    split at he
    · cases he
      rfl
    · cases he
  rw [hsig, hoff] at hright
  have h64 : (List.replicate 64 x).length = 64 := rfl
  have hslice := slice_patched_signature (n := 34 + L) (b := b) (List.replicate 64 x) h4
    (by omega)
  have hin := getElem?_of_slice hslice (Nat.le_refl _) (by omega)
  have hplace := hright.place (34 + L + 4) (by
    rw [hin, Nat.sub_self]
    exact hx)
  have hbound := ((place_iff h hk _).mp hplace).2
  unfold patchEnd at hbound
  rw [if_neg hno] at hbound
  omega

/-- A blob that differs from the template in the place only is patched. -/
theorem patched_eq {n : Nat} {b b' nonce : Bytes} {sig : Option Bytes}
    (h4 : nonce.length = 4) (hfit : n + 4 + sigSize sig ≤ b.length)
    (hn : Bytes.slice b' n 4 = nonce)
    (hsig : ∀ s, sig = some s → Bytes.slice b' (n + 4) s.length = s)
    (hout : ∀ i, i < n ∨ n + 4 + sigSize sig ≤ i → b'[i]? = b[i]?) :
    patched n b nonce sig = b' := by
  obtain ⟨-, hn', hout'⟩ := patched_spec h4 hfit
  refine List.ext_getElem? fun i => ?_
  by_cases h₁ : i < n ∨ n + 4 + sigSize sig ≤ i
  · rw [hout' i h₁, hout i h₁]
  · by_cases h₂ : i < n + 4
    · rw [getElem?_of_slice hn' (by omega) h₂, getElem?_of_slice hn (by omega) h₂]
    · cases sig with
      | none =>
        have h0 : sigSize none = 0 := rfl
        omega
      | some s =>
        have hsize : sigSize (some s) = s.length := rfl
        have hs' := slice_patched_signature (n := n) (b := b) s h4 (by omega)
        rw [getElem?_of_slice hs' (by omega) (by omega),
          getElem?_of_slice (hsig s rfl) (by omega) (by omega)]

/-- Every blob that differs from the template in the place only is sent for some
result. -/
theorem unread_of_allRight {L : Nat} (h : Taken p fuel c c' b) (hk : Known c c' b L fuel)
    (ha : AllRight p fuel c' b) : Unread p fuel c' b := by
  intro b' hlen hplace
  have hoff := offset_of_allRight h hk ha
  have hfit := hk.fit
  have hsig : c'.blocktemplate.hasMinerSignature = true ↔ Signs c.coin (b.getD 0 0) :=
    hk.signature.trans (or_iff_left_of_imp (signature_of_allRight h hk ha))
  have h4 : (Bytes.slice b' (34 + L) 4).length = 4 := Bytes.length_slice (by omega)
  -- the bytes of the blob at the signature's place, if it has that many
  obtain ⟨sig, hsome⟩ : ∃ sig : { sig : Bytes // sig.length = 64 },
      Signs c.coin (b.getD 0 0) → Bytes.slice b' (34 + L + 4) 64 = sig.1 := by
    by_cases hs : Signs c.coin (b.getD 0 0)
    · have hsigned := hk.signed hs
      exact ⟨⟨_, Bytes.length_slice (by omega)⟩, fun _ => rfl⟩
    · exact ⟨⟨List.replicate 64 0, rfl⟩, fun h => absurd h hs⟩
  obtain ⟨hf, block, hright⟩ := ha.first sig hk.text h.id h4
  have hwow : Signs c.coin (b.getD 0 0) →
      (resultOf c'.job.toJob (Bytes.slice b' (34 + L) 4) sig).minerSignature = some sig := by
    intro hs
    unfold resultOf
    simp only
    rw [h.signature, hsig.mpr hs, h.algorithm]
    unfold jobAlgorithm
    rw [hs.1]
    rfl
  have hsize := sigSize_eq (L := L) hsig fun hs => by
    rw [hwow hs]
    rfl
  have hle := sigSize_le hf
  rw [hoff] at hle
  have heq : patched c'.job.nonceOffset b (Bytes.slice b' (34 + L) 4)
      (sigOf c' (resultOf c'.job.toJob (Bytes.slice b' (34 + L) 4) sig)) = b' := by
    rw [hoff]
    refine patched_eq h4 hle rfl ?_ fun i hi => ?_
    · intro s hs
      unfold sigOf at hs
      split at hs
      · rename_i hsigned
        rw [hwow (hsig.mp hsigned)] at hs
        cases hs
        rw [sig.2]
        exact hsome (hsig.mp hsigned)
      · cases hs
    · by_contra hne
      have := (place_iff h hk i).mp (hplace i hne)
      omega
  rw [heq] at hright
  exact ⟨hright.accepted, hright.members⟩

end

/-- **Every result of a template that is taken is sent rightly** if and only if its
nonce is where the algorithm has it, its signature is its own, and the parser looks
at them once, as it does where every length fits. -/
theorem submit_right {keys : Keys} {p : Platform} {outside : UInt8 → Option UInt64} {fuel : Nat}
    {c : DaemonClient} {params : Params} {jobId : String} {now : Nat}
    (h : (parseJob keys p outside fuel c params jobId now).2 = .accepted) :
    let c' := (parseJob keys p outside fuel c params jobId now).1
    ∃ text b, params.blocktemplate_blob = some text ∧ IsTemplate text b ∧
      (AllRight p fuel c' b ↔ Good c b ∧ Unread p fuel c' b) ∧
      ((∀ a ∈ (parse Scanner.exact p fuel c.blocktemplate b c.coin false).log, a.Fits) →
        Unread p fuel c' b) := by
  intro c'
  obtain ⟨text, b, hb, ht, htaken⟩ := parseJob_taken h
  obtain ⟨L, hk⟩ := htaken.known
  refine ⟨text, b, hb, ht, ⟨fun ha => ⟨⟨⟨L, hk.varint, ?_⟩, ?_⟩, ?_⟩, ?_⟩, ?_⟩
  · exact (offset_of_allRight htaken hk ha).symm.trans hk.offset
  · exact signature_of_allRight htaken hk ha
  · exact unread_of_allRight htaken hk ha
  · rintro ⟨hg, hu⟩
    exact allRight_of_good htaken hk hg hu
  · exact unread_of_fits htaken hk

/-! ## Timestamps of five and of four bytes -/

/-- A Monero template whose timestamp begins with `timestamp`. -/
def stamped (timestamp : Bytes) : Bytes :=
  [16, 16] ++ timestamp ++ List.replicate 36 0 ++ [2, 60, 1, 0xFF, 1, 1, 0, 2] ++
    List.replicate 32 0 ++ [0, 0, 0]

theorem length_stamped (timestamp : Bytes) : (stamped timestamp).length = timestamp.length + 81 := by
  unfold stamped
  simp only [List.length_append, List.length_replicate, List.length_cons, List.length_nil]
  omega

theorem isTemplate_stamped (timestamp : Bytes) :
    IsTemplate (Cvt.bin2hex (stamped timestamp)) (stamped timestamp) := by
  have hl := length_stamped timestamp
  have h76 : kMinSize = 76 := rfl
  have hhex := Cvt.length_bin2hex (stamped timestamp)
  refine ⟨by omega, Cvt.hex2bin_bin2hex (fun h0 => ?_) (by omega)⟩
  rw [h0] at hl
  exact absurd hl (by simp)

theorem isTemplate_unique {text b b' : Bytes} (h : IsTemplate text b) (h' : IsTemplate text b') :
    b = b' :=
  congrArg Prod.fst (h.2.symm.trans h'.2)

/-- The answer of a daemon with the template. -/
def answer (timestamp : { b : Bytes // b.length ≤ 10 }) : Params where
  blocktemplate_blob := some ⟨Cvt.bin2hex (stamped timestamp.1), by
    have h := timestamp.2
    rw [Cvt.length_bin2hex, length_stamped]
    omega⟩
  blockhashing_blob := some (Cvt.bin2hex (List.replicate 76 0))

def monero : DaemonClient := { coin := .MONERO }

/-- The client after a template with the timestamp. -/
def stampedJob (timestamp : { b : Bytes // b.length ≤ 10 }) : DaemonClient × JobOutcome :=
  parseJob noKeys L1.ParseForward.Platform.sample (fun _ => none) 16 monero (answer timestamp) "00" 0

def fiveBytes : { b : Bytes // b.length ≤ 10 } := ⟨[0x80, 0x80, 0x80, 0x80, 0x06], by decide⟩

def fourBytes : { b : Bytes // b.length ≤ 10 } := ⟨[0x80, 0x80, 0x80, 0x06], by decide⟩

theorem submit_right_five :
    AllRight L1.ParseForward.Platform.sample 16 (stampedJob fiveBytes).1 (stamped fiveBytes.1) := by
  have haccepted : (stampedJob fiveBytes).2 = .accepted := by decide +kernel
  obtain ⟨text, b, hb, ht, hiff, hfits⟩ := submit_right haccepted
  cases hb
  cases isTemplate_unique ht (isTemplate_stamped _)
  exact hiff.mpr ⟨⟨⟨5, by decide, by decide⟩, nofun⟩, hfits (by decide +kernel)⟩

theorem submit_right_fails :
    ¬ ∀ keys p outside fuel c params jobId now text b,
      (parseJob keys p outside fuel c params jobId now).2 = .accepted →
        params.blocktemplate_blob = some text → IsTemplate text b →
          AllRight p fuel (parseJob keys p outside fuel c params jobId now).1 b := by
  intro h
  have haccepted : (stampedJob fourBytes).2 = .accepted := by decide +kernel
  have ha := h _ _ _ _ _ _ _ _ _ _ haccepted rfl (isTemplate_stamped _)
  obtain ⟨text, b, hb, ht, htaken⟩ := parseJob_taken haccepted
  cases hb
  cases isTemplate_unique ht (isTemplate_stamped _)
  obtain ⟨L, hk⟩ := htaken.known
  have hL : varintLength ((stamped fourBytes.1).drop 2) = some 4 := by decide
  have hoff := (offset_of_allRight htaken hk ha).symm.trans hk.offset
  rw [hk.varint] at hL
  cases hL
  exact absurd hoff (by decide)

end Rxs.L3.DaemonSubmit
