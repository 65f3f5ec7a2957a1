/-
KademliaAuction.AuctionForwarding — an auction that is decoded and encoded
again, hop after hop.

A node that forwards an auction sends on what it has decoded, not what it has
received. `Proto.Auction.normalized` says what that does to the record: hex
digits are written in lower case and an empty status as "open", and nothing
else changes. The decoder does not tell a record from its normal form
(`tryFrom_normalized`), so the first hop is the only one that changes
anything (`forwarding_stable`).

The same theorem says which records are refused: `Readable` is what the
fields must look like.
-/
import KademliaAuction.LedgerTheorems

namespace KademliaAuction

open Blockchain Lib

namespace Proto

/-- A bid as it is sent on. -/
def Bid.normalized (b : Bid) : Bid :=
  { b with buyer := b.buyer.toLower, auction := b.auction.toLower }

/-- A record as it is sent on: the hex fields in lower case, the empty status
written out. -/
def Auction.normalized (p : Auction) : Auction :=
  { p with
    key := p.key.toLower
    seller := p.seller.toLower
    bids := p.bids.map Bid.normalized
    status := if p.status = "" then "open" else p.status
    winner := p.winner.toLower }

/-- Sixty-four hex digits. -/
def IsAddress (s : String) : Prop := s.toList.length = 64 ∧ ∀ c ∈ s.toList, Hex.IsDigit c

/-- The fields that are parsed are well formed. -/
structure Auction.Readable (p : Auction) : Prop where
  key : IsAddress p.key
  seller : IsAddress p.seller
  bids : ∀ b ∈ p.bids, IsAddress b.buyer ∧ IsAddress b.auction
  winner : p.winner ≠ "" → IsAddress p.winner
  status : p.status = "" ∨ p.status = "open" ∨ p.status = "closed"

end Proto

namespace Auction

/-! ## What is refused -/

theorem fromStr_status_eq_ok_iff (s : String) :
    (∃ status, AuctionStatus.fromStr s = .ok status) ↔ s = "" ∨ s = "open" ∨ s = "closed" := by
  unfold AuctionStatus.fromStr
  split
  · rename_i h
    exact ⟨fun _ => h.elim (fun h => Or.inr (Or.inl h)) Or.inl, fun _ => ⟨_, rfl⟩⟩
  · rename_i h
    push Not at h
    split <;> simp [*]

theorem winnerReads_iff (s : String) :
    (∃ winner, WinnerReads s winner) ↔ (s ≠ "" → Proto.IsAddress s) := by
  unfold WinnerReads
  by_cases hempty : s = ""
  · simp [hempty]
  · simp only [hempty, false_and, ne_eq, not_false_eq_true, true_and, false_or, forall_const,
      exists_comm, exists_and_left, exists_eq, and_true]
    exact Address.fromStr_eq_ok_iff s

theorem bidTryFrom_eq_ok_iff (b : Proto.Bid) :
    (∃ bid, bidTryFrom b = .ok bid) ↔ Proto.IsAddress b.buyer ∧ Proto.IsAddress b.auction := by
  unfold Proto.IsAddress
  rw [← Address.fromStr_eq_ok_iff, ← Address.fromStr_eq_ok_iff]
  constructor
  · intro ⟨bid, h⟩
    obtain ⟨hbuyer, hauction, _⟩ := bidTryFrom_eq_ok.mp h
    exact ⟨⟨_, hbuyer⟩, ⟨_, hauction⟩⟩
  · intro ⟨⟨buyer, hbuyer⟩, ⟨auction, hauction⟩⟩
    exact ⟨⟨buyer, auction, b.amount⟩, bidTryFrom_eq_ok.mpr ⟨hbuyer, hauction, rfl⟩⟩

/-- Every element of a list has a partner. -/
theorem exists_forall₂_iff {α β : Type} {R : α → β → Prop} (l : List α) :
    (∃ l', List.Forall₂ R l l') ↔ ∀ a ∈ l, ∃ b, R a b := by
  induction l with
  | nil => simp
  | cons a l ih =>
    simp only [List.forall₂_cons_left_iff, List.forall_mem_cons, ← ih]
    constructor
    · rintro ⟨_, b, bs, hb, hbs, rfl⟩
      exact ⟨⟨b, hb⟩, bs, hbs⟩
    · rintro ⟨⟨b, hb⟩, bs, hbs⟩
      exact ⟨_, b, bs, hb, hbs, rfl⟩

/-- **What decodes** is exactly the readable records. -/
theorem tryFrom_eq_ok_iff (p : Proto.Auction) : (∃ a, tryFrom p = .ok a) ↔ p.Readable := by
  constructor
  · intro ⟨a, h⟩
    obtain ⟨hkey, hseller, hbids, hstatus, hwinner, _⟩ := tryFrom_eq_ok.mp h
    exact
      { key := (Address.fromStr_eq_ok_iff _).mp ⟨_, hkey⟩
        seller := (Address.fromStr_eq_ok_iff _).mp ⟨_, hseller⟩
        bids := fun b hb => (bidTryFrom_eq_ok_iff b).mp ((exists_forall₂_iff _).mp ⟨_, hbids⟩ b hb)
        winner := (winnerReads_iff _).mp ⟨_, hwinner⟩
        status := (fromStr_status_eq_ok_iff _).mp ⟨_, hstatus⟩ }
  · intro h
    obtain ⟨key, hkey⟩ := (Address.fromStr_eq_ok_iff _).mpr h.key
    obtain ⟨seller, hseller⟩ := (Address.fromStr_eq_ok_iff _).mpr h.seller
    obtain ⟨bids, hbids⟩ :=
      (exists_forall₂_iff _).mpr fun b hb => (bidTryFrom_eq_ok_iff b).mpr (h.bids b hb)
    obtain ⟨status, hstatus⟩ := (fromStr_status_eq_ok_iff _).mpr h.status
    obtain ⟨winner, hwinner⟩ := (winnerReads_iff _).mpr h.winner
    exact ⟨⟨key, p.object, p.initialValue, seller, bids, status, p.createdAt, p.endsAt, winner, _⟩,
      tryFrom_eq_ok.mpr ⟨hkey, hseller, hbids, hstatus, hwinner, rfl, rfl, rfl, rfl, rfl⟩⟩

/-! ## What is sent on -/

theorem asStr_of_fromStr {s : String} {status : AuctionStatus}
    (h : AuctionStatus.fromStr s = .ok status) :
    status.asStr = if s = "" then "open" else s := by
  unfold AuctionStatus.fromStr at h
  split at h
  · rename_i hopen
    obtain rfl := Except.ok.inj h
    rcases hopen with rfl | rfl <;> rfl
  · split at h
    · rename_i hclosed
      obtain rfl := Except.ok.inj h
      subst hclosed
      rfl
    · cases h

theorem toStr_of_winnerReads {s : String} {winner : Option Address} (h : WinnerReads s winner) :
    (winner.map Address.toStr).getD "" = s.toLower := by
  rcases h with ⟨rfl, rfl⟩ | ⟨_, a, ha, rfl⟩
  · show "" = String.map Char.toLower ""
    simp
  · exact Address.toStr_of_fromStr ha

theorem bidToProto_of_bidTryFrom {b : Proto.Bid} {bid : Bid} (h : bidTryFrom b = .ok bid) :
    bidToProto bid = b.normalized := by
  obtain ⟨hbuyer, hauction, hamount⟩ := bidTryFrom_eq_ok.mp h
  simp only [bidToProto, Proto.Bid.normalized, Address.toStr_of_fromStr hbuyer,
    Address.toStr_of_fromStr hauction, hamount]

theorem map_bidToProto {bs : List Proto.Bid} {bids : List Bid}
    (h : List.Forall₂ (fun b bid => bidTryFrom b = .ok bid) bs bids) :
    bids.map bidToProto = bs.map Proto.Bid.normalized := by
  induction h with
  | nil => rfl
  | cons hb _ ih => rw [List.map_cons, List.map_cons, bidToProto_of_bidTryFrom hb, ih]

/-- What is sent on is the normal form of what came in. -/
theorem toProto_of_tryFrom {p : Proto.Auction} {a : Auction} (h : tryFrom p = .ok a) :
    a.toProto = p.normalized := by
  obtain ⟨hkey, hseller, hbids, hstatus, hwinner, hobject, hinitial, hcreated, hends, hbid⟩ :=
    tryFrom_eq_ok.mp h
  have hamount : a.winningBid.getD 0 = p.winningBid := by
    rw [hbid]
    split
    · simp [*]
    · rfl
  simp only [toProto, Proto.Auction.normalized, Address.toStr_of_fromStr hkey,
    Address.toStr_of_fromStr hseller, map_bidToProto hbids, asStr_of_fromStr hstatus,
    toStr_of_winnerReads hwinner, hobject, hinitial, hcreated, hends, hamount]

/-- The decoder does not tell a record from its normal form. -/
theorem tryFrom_normalized {p : Proto.Auction} {a : Auction} (h : tryFrom p = .ok a) :
    tryFrom p.normalized = .ok a := by
  rw [← toProto_of_tryFrom h]
  exact tryFrom_toProto (winningBid_of_tryFrom h)

/-! ## Chains of hops -/

/-- The two conversions, of an owned auction and of a borrowed one. -/
inductive Encoder where
  | owned
  | borrowed
  deriving DecidableEq, Repr

def Encoder.encode : Encoder → Auction → Proto.Auction
  | .owned => toProto
  | .borrowed => refToProto

/-- Each hop decodes what it receives and sends it on with its encoder. -/
def forwarded (hops : List Encoder) (p : Proto.Auction) : Except String Proto.Auction :=
  hops.foldlM (fun p hop => (tryFrom p).map hop.encode) p

theorem encode_of_tryFrom {p : Proto.Auction} {a : Auction} (h : tryFrom p = .ok a)
    (hop : Encoder) : hop.encode a = p.normalized := by
  cases hop with
  | owned => exact toProto_of_tryFrom h
  | borrowed => exact (refToProto_eq a).trans (toProto_of_tryFrom h)

/-- One hop from a record or from its normal form. -/
theorem forwarded_cons {p : Proto.Auction} {a : Auction} (h : tryFrom p = .ok a) (hop : Encoder)
    (hops : List Encoder) : forwarded (hop :: hops) p = forwarded hops p.normalized := by
  unfold forwarded
  rw [List.foldlM_cons, h]
  simp only [Except.map, encode_of_tryFrom h]
  rfl

theorem normalized_normalized {p : Proto.Auction} {a : Auction} (h : tryFrom p = .ok a) :
    p.normalized.normalized = p.normalized := by
  rw [← toProto_of_tryFrom (tryFrom_normalized h), toProto_of_tryFrom h]

/-- By induction on the hops: the normal form is sent on as it is. -/
theorem forwarded_normalized {p : Proto.Auction} {a : Auction} (h : tryFrom p = .ok a)
    (hops : List Encoder) : forwarded hops p.normalized = .ok p.normalized := by
  induction hops with
  | nil => rfl
  | cons hop hops ih =>
    rw [forwarded_cons (tryFrom_normalized h), normalized_normalized h, ih]

/-- **Forwarding is stable**: of a record that decodes, both conversions send
on the normal form, which decodes to the same auction; and after any positive
number of hops, each with either conversion, it is that normal form. What is
refused is what has an address field that is not sixty-four hex digits or an
unknown status. -/
theorem forwarding_stable (p : Proto.Auction) :
    (∀ a, tryFrom p = .ok a →
      a.toProto = p.normalized ∧ a.refToProto = p.normalized ∧ tryFrom p.normalized = .ok a ∧
        ∀ hops, hops ≠ [] → forwarded hops p = .ok p.normalized) ∧
    ((∃ e, tryFrom p = .error e) ↔
      ¬ Proto.IsAddress p.key ∨ ¬ Proto.IsAddress p.seller ∨
        (∃ b ∈ p.bids, ¬ Proto.IsAddress b.buyer ∨ ¬ Proto.IsAddress b.auction) ∨
        (p.winner ≠ "" ∧ ¬ Proto.IsAddress p.winner) ∨
        (p.status ≠ "" ∧ p.status ≠ "open" ∧ p.status ≠ "closed")) := by
  constructor
  · intro a h
    refine ⟨toProto_of_tryFrom h, encode_of_tryFrom h .borrowed, tryFrom_normalized h, ?_⟩
    intro hops hne
    cases hops with
    | nil => exact absurd rfl hne
    | cons hop hops => rw [forwarded_cons h, forwarded_normalized h]
  · have hrefused : (∃ e, tryFrom p = .error e) ↔ ¬ p.Readable := by
      rw [← tryFrom_eq_ok_iff]
      cases tryFrom p <;> simp
    rw [hrefused]
    constructor
    · intro h
      by_contra hnone
      push Not at hnone
      obtain ⟨hkey, hseller, hbids, hwinner, hstatus⟩ := hnone
      refine h ⟨hkey, hseller, hbids, hwinner, ?_⟩
      by_contra hother
      push Not at hother
      exact hother.2.2 (hstatus hother.1 hother.2.1)
    · intro hbad h
      rcases hbad with hkey | hseller | ⟨b, hb, hbid⟩ | ⟨hsome, hwinner⟩ | hstatus
      · exact hkey h.key
      · exact hseller h.seller
      · exact hbid.elim (fun hbuyer => hbuyer (h.bids b hb).1) fun hkey => hkey (h.bids b hb).2
      · exact hwinner (h.winner hsome)
      · rcases h.status with h | h | h
        · exact hstatus.1 h
        · exact hstatus.2.1 h
        · exact hstatus.2.2 h

/-- The record of the sold watch with its key in upper case and no status. -/
def loudRecord : Proto.Auction :=
  { soldWatch.toProto with
    key := String.ofList (List.replicate 64 'A')
    status := "" }

theorem readable_loudRecord : loudRecord.Readable where
  key := by
    unfold Proto.IsAddress loudRecord
    rw [String.toList_ofList]
    refine ⟨List.length_replicate, fun c hc => ?_⟩
    rw [List.eq_of_mem_replicate hc]
    decide
  seller := (Address.fromStr_eq_ok_iff _).mp ⟨_, Address.fromStr_toStr (Address.ofU256 1)⟩
  bids := by
    intro b hb
    obtain ⟨bid, _, rfl⟩ := List.mem_map.mp hb
    exact (bidTryFrom_eq_ok_iff _).mp ⟨bid, bidTryFrom_bidToProto bid⟩
  winner := fun _ => (Address.fromStr_eq_ok_iff _).mp ⟨_, Address.fromStr_toStr (Address.ofU256 2)⟩
  status := Or.inl rfl

/-- Three hops leave it in its normal form. -/
theorem forwarding_stable_loudRecord :
    forwarded [.owned, .borrowed, .owned] loudRecord = .ok loudRecord.normalized ∧
      loudRecord.normalized.status = "open" ∧ loudRecord.normalized ≠ loudRecord := by
  obtain ⟨a, ha⟩ := (tryFrom_eq_ok_iff loudRecord).mpr readable_loudRecord
  obtain ⟨_, _, _, hhops⟩ := (forwarding_stable loudRecord).1 a ha
  refine ⟨hhops _ (by simp), rfl, fun heq => ?_⟩
  have hstatus : "open" = "" := congrArg Proto.Auction.status heq
  exact absurd hstatus (by decide)

end Auction

end KademliaAuction
