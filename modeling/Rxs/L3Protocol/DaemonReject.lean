import Rxs.L3Protocol.Daemon

/-!
# A rejected template and the job that is being mined

`parseJob` parses the new template into the object that `submit` asks whether the
current job has a miner signature, and rejects the answer later, or because the
parser did. The text, the job and its id are only set when the job is taken.

* `rejected_frame`: what a rejected answer changes.
* **`rejected_intact`**: the template object is as before if and only if it held what
  the text assigns, and what `submit` reads is as before if and only if the text has
  no signature that the object did not have.
* `rejected_intact_fails`: a signed template without a spend key.
-/
namespace Rxs.L3.DaemonReject

open Rxs.Core Rxs.BlockTemplate Rxs.L1.ParseHistory Rxs.L1.Header Rxs.DaemonClient

section
variable (p : Platform) (fuel : Nat)

/-- The text is a template in hexadecimal. -/
def IsTemplate (text b : Bytes) : Prop :=
  kMinSize * 2 ≤ text.length ∧ Cvt.fromHex (text.length / 2) text = (b, true)

/-- A template in hexadecimal is parsed as its bytes are. -/
theorem parseText_eq {text b : Bytes} (h : IsTemplate text b) (t : BlockTemplate) (coin : Coin)
    (hashes : Bool) :
    ¬ b.length < kMinSize ∧ text.length = 2 * b.length ∧
      parseText p fuel t text coin hashes = parse Scanner.wrap p fuel t b coin hashes := by
  obtain ⟨hmin, hhex⟩ := h
  have hlen := Cvt.length_pairs (Cvt.fromHex_eq.mp hhex).2.1
  have hb : ¬ b.length < kMinSize := by omega
  refine ⟨hb, hlen, ?_⟩
  unfold parseText parse
  rw [if_neg (Nat.not_lt.mpr hmin), if_neg hb]
  simp only [hhex]

/-- The template object already holds what the answer's text assigns. -/
def Holds (t : BlockTemplate) (coin : Coin) (text : Bytes) : Prop :=
  if text.length < kMinSize * 2 then True
  else
    match Cvt.fromHex (text.length / 2) text with
    | (w, false) => w ++ (resize (t .blob) (text.length / 2)).drop w.length = t .blob
    | (b, true) => ∀ m, Assigned p fuel b coin false m →
        t m = (parse Scanner.wrap p fuel fresh b coin false).t m

/-- Parsing a text changes nothing if and only if what it assigns was there. -/
theorem parseText_same_iff (t : BlockTemplate) (text : Bytes) (coin : Coin) :
    (parseText p fuel t text coin false).t = t ↔ Holds p fuel t coin text := by
  unfold Holds
  by_cases hmin : text.length < kMinSize * 2
  · unfold parseText
    rw [if_pos hmin, if_pos hmin]
    exact ⟨fun _ => trivial, fun _ => rfl⟩
  · rw [if_neg hmin]
    rcases hhex : Cvt.fromHex (text.length / 2) text with ⟨w, _ | _⟩
    · unfold parseText
      rw [if_neg hmin]
      simp only [hhex]
      constructor
      · intro h
        have hb := congrFun h .blob
        rwa [Function.update_self] at hb
      · intro h
        rw [h]
        exact Function.update_eq_self _ _
    · obtain ⟨hlen, -, heq⟩ := parseText_eq p fuel ⟨Nat.not_lt.mp hmin, hhex⟩ t coin false
      rw [heq]
      constructor
      · intro h m hm
        rw [← parse_assigned p fuel t w coin false hlen hm, h]
      · intro h
        funext m
        by_cases hm : Assigned p fuel w coin false m
        · rw [parse_assigned p fuel t w coin false hlen hm, h m hm]
        · exact parse_kept p fuel t w coin false hlen hm

/-- The signature of the template object after a text. -/
theorem parseText_signature (t : BlockTemplate) (text : JsonText) (coin : Coin) {rc : Bool}
    (hrc : (parseText p fuel t text coin false).rc = .returned rc) :
    hasMinerSignature (parseText p fuel t text coin false).t = true ↔
      (∃ b, IsTemplate text b ∧ HasSignature b coin) ∨ hasMinerSignature t = true := by
  by_cases hmin : text.1.length < kMinSize * 2
  · have hno : ¬ ∃ b, IsTemplate text b ∧ HasSignature b coin := by
      rintro ⟨b, ⟨hb, -⟩, -⟩
      omega
    rw [or_iff_right hno]
    unfold parseText
    rw [if_pos hmin]
  · rcases hhex : Cvt.fromHex (text.1.length / 2) text with ⟨w, _ | _⟩
    · have hno : ¬ ∃ b, IsTemplate text b ∧ HasSignature b coin := by
        rintro ⟨b, ⟨-, hb⟩, -⟩
        rw [hhex] at hb
        cases hb
      rw [or_iff_right hno]
      unfold parseText
      rw [if_neg hmin]
      simp only [hhex]
      refine iff_of_eq (congrArg (· = true) (hasMinerSignature_congr ?_))
      exact Function.update_of_ne (show BlockTemplate.Member.minerSignature ≠ .blob from nofun) _ _
    · have htem : IsTemplate text w := ⟨Nat.not_lt.mp hmin, hhex⟩
      obtain ⟨hlen, htext, heq⟩ := parseText_eq p fuel htem t coin false
      have hbound := text.2
      rw [heq] at hrc ⊢
      rw [parse_signature adds_wrap p fuel t (by omega) coin false hlen hrc]
      refine or_congr_left ⟨fun h => ⟨w, htem, h⟩, ?_⟩
      rintro ⟨b, ⟨-, hb⟩, h⟩
      rw [hhex] at hb
      cases hb
      exact h

end

/-! ## The law -/

/-- The state of the job being mined is as before. -/
structure Intact (c c' : DaemonClient) : Prop where
  blocktemplate : c'.blocktemplate = c.blocktemplate
  blocktemplateStr : c'.blocktemplateStr = c.blocktemplateStr
  currentJobId : c'.currentJobId = c.currentJobId
  job : c'.job = c.job

/-- What `submit` reads is as before. -/
structure SubmitsAlike (c c' : DaemonClient) : Prop where
  signature : c'.blocktemplate.hasMinerSignature = c.blocktemplate.hasMinerSignature
  blocktemplateStr : c'.blocktemplateStr = c.blocktemplateStr
  currentJobId : c'.currentJobId = c.currentJobId
  job : c'.job = c.job

/-- A result is sent as it would have been. -/
theorem SubmitsAlike.submit {c c' : DaemonClient} (h : SubmitsAlike c c') (r : JobResult) :
    (c'.submit r).2 = (c.submit r).2 := by
  have hpatch : c'.patch r = c.patch r := by
    unfold patch
    rw [h.signature, h.blocktemplateStr, h.job]
  unfold DaemonClient.submit
  rw [h.currentJobId, hpatch]
  split
  · rfl
  · split <;> rfl

/-- A job that is not taken leaves no trace. -/
theorem takeJob_rejected {c : DaemonClient} {params : Params} {text : Bytes}
    {ephKeys : Option EphemeralKeys} {jobId : String} {now code : Nat}
    (h : (takeJob c params text ephKeys jobId now).2 = .rejected code) :
    (takeJob c params text ephKeys jobId now).1 = c := by
  unfold takeJob at h ⊢
  simp only at h ⊢
  split at h
  · rfl
  · cases h

section
variable (keys : Keys) (p : Platform) (outside : UInt8 → Option UInt64) (fuel : Nat)
  (c : DaemonClient) (params : Params) (jobId : String) (now : Nat)

/-- What a rejected answer leaves alone, and the template object after it. -/
theorem rejected_frame {code : Nat}
    (h : (parseJob keys p outside fuel c params jobId now).2 = .rejected code) :
    let c' := (parseJob keys p outside fuel c params jobId now).1
    c'.blocktemplateStr = c.blocktemplateStr ∧ c'.currentJobId = c.currentJobId ∧
      c'.job = c.job ∧
      ((params.blocktemplate_blob = none ∧ c'.blocktemplate = c.blocktemplate) ∨
        ∃ text rc, params.blocktemplate_blob = some text ∧
          (parseText p fuel c.blocktemplate text c.coin false).rc = .returned rc ∧
          c'.blocktemplate = (parseText p fuel c.blocktemplate text c.coin false).t) := by
  intro c'
  cases hb : params.blocktemplate_blob with
  | none =>
    have hc : c' = c := by
      show (parseJob keys p outside fuel c params jobId now).1 = c
      unfold parseJob
      rw [hb]
    rw [hc]
    exact ⟨rfl, rfl, rfl, .inl ⟨rfl, rfl⟩⟩
  | some text =>
    have hdef : c' = (parseJob keys p outside fuel c params jobId now).1 := rfl
    clear_value c'
    unfold parseJob at h hdef
    rw [hb] at h hdef
    simp only at h hdef
    cases hrc : (parseText p fuel c.blocktemplate text c.coin false).rc with
    | undefined => rw [hrc] at h; cases h
    | fuel => rw [hrc] at h; cases h
    | returned rc =>
      rw [hrc] at h hdef
      suffices hs : c'.blocktemplateStr = c.blocktemplateStr ∧
          c'.currentJobId = c.currentJobId ∧ c'.job = c.job ∧
          c'.blocktemplate = (parseText p fuel c.blocktemplate text c.coin false).t from
        ⟨hs.1, hs.2.1, hs.2.2.1, .inr ⟨text, rc, rfl, hrc, hs.2.2.2⟩⟩
      cases rc with
      | false =>
        rw [hdef]
        exact ⟨rfl, rfl, rfl, rfl⟩
      | true =>
        simp only at h hdef
        generalize signatureKeys keys p outside _ c.walletAddress = k at h hdef
        cases k with
        | error e w =>
          cases e with
          | undefined => cases h
          | jobError =>
            rw [hdef]
            exact ⟨rfl, rfl, rfl, rfl⟩
        | ok ephKeys w =>
          rw [takeJob_rejected h] at hdef
          rw [hdef]
          exact ⟨rfl, rfl, rfl, rfl⟩

/-- **A rejected answer** and the job that is being mined. -/
theorem rejected_intact {code : Nat}
    (h : (parseJob keys p outside fuel c params jobId now).2 = .rejected code) :
    (Intact c (parseJob keys p outside fuel c params jobId now).1 ↔
        ∀ text, params.blocktemplate_blob = some text → Holds p fuel c.blocktemplate c.coin text) ∧
      (SubmitsAlike c (parseJob keys p outside fuel c params jobId now).1 ↔
        c.blocktemplate.hasMinerSignature = true ∨
          ¬ ∃ text b, params.blocktemplate_blob = some text ∧ IsTemplate text b ∧
            HasSignature b c.coin) := by
  obtain ⟨hstr, hid, hjob, hrest⟩ := rejected_frame keys p outside fuel c params jobId now h
  generalize (parseJob keys p outside fuel c params jobId now).1 = c' at hstr hid hjob hrest ⊢
  have hintact : Intact c c' ↔ c'.blocktemplate = c.blocktemplate :=
    ⟨fun h => h.blocktemplate, fun h => ⟨h, hstr, hid, hjob⟩⟩
  have halike : SubmitsAlike c c' ↔
      c'.blocktemplate.hasMinerSignature = c.blocktemplate.hasMinerSignature :=
    ⟨fun h => h.signature, fun h => ⟨h, hstr, hid, hjob⟩⟩
  rw [hintact, halike]
  rcases hrest with ⟨hb, ht⟩ | ⟨text, rc, hb, hrc, ht⟩
  · rw [hb, ht]
    refine ⟨⟨fun _ _ h => ?_, fun _ => rfl⟩, fun _ => .inr ?_, fun _ => rfl⟩
    · cases h
    · rintro ⟨_, _, h, -⟩
      cases h
  · have hsig := parseText_signature p fuel c.blocktemplate text c.coin hrc
    rw [ht, hb]
    refine ⟨?_, ?_⟩
    · rw [parseText_same_iff]
      refine ⟨fun h text' he => ?_, fun h => h text rfl⟩
      cases he
      exact h
    · have hex : (∃ text' b, some text = some text' ∧ IsTemplate text' b ∧
          HasSignature b c.coin) ↔ ∃ b, IsTemplate text b ∧ HasSignature b c.coin := by
        constructor
        · rintro ⟨text', b, he, hb⟩
          cases he
          exact ⟨b, hb⟩
        · rintro ⟨b, hb⟩
          exact ⟨text, b, rfl, hb⟩
      rw [hex]
      cases hold : c.blocktemplate.hasMinerSignature with
      | true =>
        refine ⟨fun _ => .inl rfl, fun _ => ?_⟩
        exact hsig.mpr (.inr hold)
      | false =>
        rw [hold, or_iff_left nofun] at hsig
        rw [or_iff_right nofun, ← hsig, Bool.not_eq_true]

end

/-! ## A signed template without a spend key -/

/-- Functions on keys that refuse every key. -/
def noKeys : Keys where
  secret_key_to_public_key _ := none
  derive_view_secret_key sec := sec
  generate_key_derivation _ _ := none
  derive_secret_key _ _ base := base

/-- A client that mines an unsigned Wownero template. -/
def mining : DaemonClient where
  coin := .WOWNERO
  blocktemplate :=
    (parse Scanner.wrap L1.ParseForward.Platform.sample 16 fresh (blobOf 17 [] []) .WOWNERO false).t
  blocktemplateStr := Cvt.bin2hex (blobOf 17 [] [])
  currentJobId := "00000000"

def signedText : JsonText := ⟨Cvt.bin2hex (blobOf 18 (List.replicate 66 7) []), by decide +kernel⟩

/-- The client after an answer with a signed template. -/
def after : DaemonClient × JobOutcome :=
  parseJob noKeys L1.ParseForward.Platform.sample (fun _ => none) 16 mining
    { blocktemplate_blob := some signedText } "00000001" 0

theorem after_rejected : after.2 = .rejected 1 := by decide +kernel

theorem rejected_intact_mining : ¬ SubmitsAlike mining after.1 := by
  have h := (rejected_intact noKeys L1.ParseForward.Platform.sample (fun _ => none) 16 mining
    { blocktemplate_blob := some signedText } "00000001" 0 after_rejected).2
  intro ha
  rcases h.mp ha with h | h
  · exact absurd h (by decide +kernel)
  · refine h ⟨signedText, blobOf 18 (List.replicate 66 7) [], rfl, ⟨?_, ?_⟩, ⟨?_, ?_⟩, 5, ?_, ?_⟩
    all_goals decide +kernel

theorem rejected_intact_fails :
    ¬ ∀ keys p outside fuel c params jobId now code,
      (parseJob keys p outside fuel c params jobId now).2 = .rejected code →
        Intact c (parseJob keys p outside fuel c params jobId now).1 := by
  intro h
  have hi := h noKeys L1.ParseForward.Platform.sample (fun _ => none) 16 mining
    { blocktemplate_blob := some signedText } "00000001" 0 1 after_rejected
  have hs : after.1.blocktemplate.hasMinerSignature = mining.blocktemplate.hasMinerSignature := by
    unfold after
    rw [hi.blocktemplate]
  exact absurd hs (by decide +kernel)

end Rxs.L3.DaemonReject
