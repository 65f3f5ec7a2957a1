/-
KademliaAuction.Auction — auctions and bids (`src/auction.rs`).

An auction is built by `newWithDuration`, grows by `placeBid` and is closed
by `closeIfExpired`; these are the only places where the economics of an
auction are checked. `tryFrom` and the two `From` implementations convert it
from and to its protobuf record: `tryFrom` checks that addresses and the
status parse, and nothing else.

Each operation has one lemma that says all it can do (`placeBid_eq_ok`,
`closeIfExpired_cases`, `tryFrom_eq_ok`), and no proof below this module
unfolds them again.
The clock reading of `Utc::now().timestamp_millis()` is the parameter `now`.
-/
import KademliaAuction.Blockchain.Block
import KademliaAuction.Proto
import Mathlib.Data.List.Forall2
import Mathlib.Order.Defs.LinearOrder

namespace KademliaAuction

open Blockchain

/-- Where an error is only dropped, a value is the one that was returned. -/
theorem ok_of_toOption {ε α : Type} {result : Except ε α} {value : α}
    (h : result.toOption = some value) : result = .ok value := by
  cases result with
  | error e => cases h
  | ok found => exact congrArg Except.ok (Option.some.inj h)

/-- `enum AuctionStatus`. -/
inductive AuctionStatus where
  | Open
  | Closed
  deriving DecidableEq, Repr

namespace AuctionStatus

/-- `as_str`. -/
def asStr : AuctionStatus → String
  | .Open => "open"
  | .Closed => "closed"

/-- `from_str`: the empty string, protobuf's default, is an open auction. -/
def fromStr (value : String) : Except String AuctionStatus :=
  if value = "open" ∨ value = "" then .ok .Open
  else if value = "closed" then .ok .Closed
  else .error s!"Unknown auction status '{value}'"

@[simp] theorem fromStr_asStr (status : AuctionStatus) : fromStr status.asStr = .ok status := by
  cases status <;> rfl

end AuctionStatus

/-- `struct Bid`. -/
structure Bid where
  buyer : Address
  auction : Address
  amount : Nat
  deriving DecidableEq

/-- `struct Auction`. -/
structure Auction where
  key : Address
  object : String
  initialValue : Nat
  seller : Address
  bids : List Bid
  status : AuctionStatus
  createdAt : Int
  endsAt : Int
  winner : Option Address
  winningBid : Option Nat
  deriving DecidableEq

namespace Auction

/-! ## Creation -/

/-- `generate_key`: the hash of the offer, as an address. The `unwrap` of the
source cannot fail (`generateKey_eq`). -/
def generateKey (crates : Crates) (a : Auction) : Address :=
  let dataToHash := a.object ++ toString a.initialValue ++ a.seller.toStr
  match Address.fromStr (formatAsHexString (hashStr crates dataToHash)) with
  | .ok key => key
  | .error _ => default

/-- `new_with_duration`. -/
def newWithDuration (crates : Crates) (object : String) (initialValue : Nat) (seller : Address)
    (durationMs now : Int) : Auction :=
  let auction : Auction :=
    { key := default
      object, initialValue, seller
      bids := []
      status := .Open
      createdAt := now
      endsAt := now + durationMs
      winner := none
      winningBid := none }
  { auction with key := auction.generateKey crates }

/-- `Auction::new`: thirty seconds. -/
def new (crates : Crates) (object : String) (initialValue : Nat) (seller : Address) (now : Int) :
    Auction :=
  newWithDuration crates object initialValue seller 30000 now

theorem generateKey_eq (crates : Crates) (a : Auction) :
    a.generateKey crates =
      Address.ofU256 (hashStr crates (a.object ++ toString a.initialValue ++ a.seller.toStr)) := by
  unfold generateKey
  simp only [fromStr_formatAsHexString]

section NewWithDuration

variable (crates : Crates) (object : String) (initialValue : Nat) (seller : Address)
  (durationMs now : Int)

@[simp] theorem newWithDuration_bids :
    (newWithDuration crates object initialValue seller durationMs now).bids = [] := rfl

@[simp] theorem newWithDuration_status :
    (newWithDuration crates object initialValue seller durationMs now).status = .Open := rfl

@[simp] theorem newWithDuration_winner :
    (newWithDuration crates object initialValue seller durationMs now).winner = none := rfl

@[simp] theorem newWithDuration_winningBid :
    (newWithDuration crates object initialValue seller durationMs now).winningBid = none := rfl

@[simp] theorem newWithDuration_initialValue :
    (newWithDuration crates object initialValue seller durationMs now).initialValue
      = initialValue := rfl

@[simp] theorem newWithDuration_endsAt :
    (newWithDuration crates object initialValue seller durationMs now).endsAt
      = now + durationMs := rfl

end NewWithDuration

/-! ## Bids -/

/-- `highest_bid_amount`. -/
def highestBidAmount (a : Auction) : Nat := (a.bids.map Bid.amount).max?.getD a.initialValue

/-- `place_bid`: the auction with the bid appended, or the reason why the bid
is refused, in which case the source leaves the auction as it is. -/
def placeBid (a : Auction) (buyer : Address) (amount : Nat) (now : Int) : Except String Auction :=
  if a.status = .Closed ∨ a.endsAt ≤ now then .error "Auction is closed"
  else
    let currentPrice := a.highestBidAmount
    if amount ≤ currentPrice then
      .error s!"Bid amount must be greater than current price {currentPrice}"
    else .ok { a with bids := a.bids ++ [{ buyer, auction := a.key, amount }] }

/-- All that an accepted bid does and requires. -/
theorem placeBid_eq_ok {a a' : Auction} {buyer : Address} {amount : Nat} {now : Int} :
    a.placeBid buyer amount now = .ok a' ↔
      a.status = .Open ∧ now < a.endsAt ∧ a.highestBidAmount < amount ∧
        a' = { a with bids := a.bids ++ [{ buyer, auction := a.key, amount }] } := by
  unfold placeBid
  have hstatus : a.status = .Open ↔ ¬ a.status = .Closed := by cases a.status <;> simp
  split
  · rename_i h
    rw [hstatus]
    simp only [reduceCtorEq, false_iff]
    intro ⟨hopen, htime, _⟩
    rcases h with h | h
    · exact hopen h
    · omega
  · rename_i h
    push Not at h
    by_cases hle : amount ≤ a.highestBidAmount
    · simp only [hle, if_true, reduceCtorEq, false_iff]
      intro ⟨_, _, hlt, _⟩
      omega
    · simp only [hle, if_false, Except.ok.injEq]
      constructor
      · intro ha'
        exact ⟨hstatus.mpr h.1, h.2, by omega, ha'.symm⟩
      · intro ⟨_, _, _, ha'⟩
        exact ha'.symm

/-- Every bid amount is at most the price. -/
theorem amount_le_highestBidAmount {a : Auction} {b : Bid} (h : b ∈ a.bids) :
    b.amount ≤ a.highestBidAmount := by
  unfold highestBidAmount
  cases hm : (a.bids.map Bid.amount).max? with
  | none =>
    rw [List.max?_eq_none_iff, List.map_eq_nil_iff] at hm
    simp [hm] at h
  | some m => exact (List.max?_eq_some_iff.mp hm).2 _ (List.mem_map_of_mem h)

/-- The price is the starting price or one of the bids. -/
theorem highestBidAmount_cases (a : Auction) :
    (a.bids = [] ∧ a.highestBidAmount = a.initialValue) ∨
      ∃ b ∈ a.bids, a.highestBidAmount = b.amount := by
  unfold highestBidAmount
  cases hm : (a.bids.map Bid.amount).max? with
  | none =>
    rw [List.max?_eq_none_iff, List.map_eq_nil_iff] at hm
    exact Or.inl ⟨hm, rfl⟩
  | some m =>
    obtain ⟨b, hb, rfl⟩ := List.mem_map.mp (List.max?_eq_some_iff.mp hm).1
    exact Or.inr ⟨b, hb, rfl⟩

/-! ## Closing -/

/-- `max_by_key(|bid| bid.amount)`: the last of the highest bids. -/
def maxByAmount : List Bid → Option Bid
  | [] => none
  | b :: bs => some (bs.foldl (fun best bid => if best.amount ≤ bid.amount then bid else best) b)

/-- The body of `close_if_expired` once the auction is known to have
expired. -/
def close (a : Auction) : Auction :=
  match maxByAmount a.bids with
  | some bid => { a with status := .Closed, winner := some bid.buyer, winningBid := some bid.amount }
  | none => { a with status := .Closed }

/-- `close_if_expired`: whether the auction was closed just now, and the
auction. -/
def closeIfExpired (a : Auction) (now : Int) : Bool × Auction :=
  if a.status = .Closed ∨ now < a.endsAt then (false, a) else (true, a.close)

theorem foldl_max_spec (bs : List Bid) (b : Bid) :
    let best := bs.foldl (fun best bid => if best.amount ≤ bid.amount then bid else best) b
    best ∈ b :: bs ∧ ∀ x ∈ b :: bs, x.amount ≤ best.amount := by
  induction bs generalizing b with
  | nil => simp
  | cons c cs ih =>
    intro best
    obtain ⟨hmem, hmax⟩ := ih (if b.amount ≤ c.amount then c else b)
    refine ⟨?_, fun x hx => ?_⟩
    · rcases List.mem_cons.mp hmem with h | h
      · rw [show best = _ from h]
        split <;> simp
      · exact List.mem_cons_of_mem _ (List.mem_cons_of_mem _ h)
    · have hhead := hmax _ (List.mem_cons_self ..)
      have hbc : b.amount ≤ (if b.amount ≤ c.amount then c else b).amount ∧
          c.amount ≤ (if b.amount ≤ c.amount then c else b).amount := by
        split <;> omega
      rcases List.mem_cons.mp hx with rfl | hx
      · exact hbc.1.trans hhead
      · rcases List.mem_cons.mp hx with rfl | hx
        · exact hbc.2.trans hhead
        · exact hmax x (List.mem_cons_of_mem _ hx)

theorem maxByAmount_eq_some {bids : List Bid} {b : Bid} (h : maxByAmount bids = some b) :
    b ∈ bids ∧ ∀ x ∈ bids, x.amount ≤ b.amount := by
  cases bids with
  | nil => simp [maxByAmount] at h
  | cons c cs =>
    simp only [maxByAmount, Option.some.injEq] at h
    exact h ▸ foldl_max_spec cs c

@[simp] theorem maxByAmount_eq_none {bids : List Bid} : maxByAmount bids = none ↔ bids = [] := by
  cases bids <;> simp [maxByAmount]

@[simp] theorem close_key (a : Auction) : a.close.key = a.key := by
  unfold close; split <;> rfl

@[simp] theorem close_seller (a : Auction) : a.close.seller = a.seller := by
  unfold close; split <;> rfl

@[simp] theorem close_bids (a : Auction) : a.close.bids = a.bids := by
  unfold close; split <;> rfl

@[simp] theorem close_initialValue (a : Auction) : a.close.initialValue = a.initialValue := by
  unfold close; split <;> rfl

@[simp] theorem close_object (a : Auction) : a.close.object = a.object := by
  unfold close; split <;> rfl

@[simp] theorem close_createdAt (a : Auction) : a.close.createdAt = a.createdAt := by
  unfold close; split <;> rfl

@[simp] theorem close_endsAt (a : Auction) : a.close.endsAt = a.endsAt := by
  unfold close; split <;> rfl

@[simp] theorem close_status (a : Auction) : a.close.status = .Closed := by
  unfold close; split <;> rfl

/-- The winner fields of an auction just closed: those of the highest bid, or
those it had. -/
theorem close_winner_cases (a : Auction) :
    (∃ b ∈ a.bids, (∀ x ∈ a.bids, x.amount ≤ b.amount) ∧
      a.close.winner = some b.buyer ∧ a.close.winningBid = some b.amount) ∨
    (a.bids = [] ∧ a.close.winner = a.winner ∧ a.close.winningBid = a.winningBid) := by
  unfold close
  cases hm : maxByAmount a.bids with
  | none => exact Or.inr ⟨maxByAmount_eq_none.mp hm, rfl, rfl⟩
  | some b =>
    obtain ⟨hb, hmax⟩ := maxByAmount_eq_some hm
    exact Or.inl ⟨b, hb, hmax, rfl, rfl⟩

/-- All that `close_if_expired` can do. -/
theorem closeIfExpired_cases (a : Auction) (now : Int) :
    (a.closeIfExpired now = (false, a) ∧ (a.status = .Closed ∨ now < a.endsAt)) ∨
    (a.closeIfExpired now = (true, a.close) ∧ a.status = .Open ∧ a.endsAt ≤ now) := by
  unfold closeIfExpired
  split
  · rename_i h
    exact Or.inl ⟨rfl, h⟩
  · rename_i h
    push Not at h
    refine Or.inr ⟨rfl, ?_, h.2⟩
    cases hs : a.status with
    | Open => rfl
    | Closed => exact absurd hs h.1

@[simp] theorem closeIfExpired_key (a : Auction) (now : Int) :
    (a.closeIfExpired now).2.key = a.key := by
  rcases a.closeIfExpired_cases now with ⟨h, _⟩ | ⟨h, _⟩ <;> simp [h]

/-! ## Protobuf -/

/-- Prefix the message of an address error, as `map_err(|e| anyhow!(..))`
does. -/
def addressOr (what : String) (s : String) : Except String Address :=
  match Address.fromStr s with
  | .ok a => .ok a
  | .error e => .error s!"{what}: {e.message}"

/-- The closure `try_from` maps over the bids. -/
def bidTryFrom (b : Proto.Bid) : Except String Bid := do
  let buyer ← addressOr "Invalid buyer address in bid" b.buyer
  let auction ← addressOr "Invalid auction key in bid" b.auction
  pure { buyer, auction, amount := b.amount }

/-- `TryFrom<&kademlia::Auction> for Auction`. -/
def tryFrom (proto : Proto.Auction) : Except String Auction := do
  let key ← addressOr "Invalid key format" proto.key
  let seller ← addressOr "Invalid seller address" proto.seller
  let bids ← proto.bids.mapM bidTryFrom
  let status ← AuctionStatus.fromStr proto.status
  let winner ← if proto.winner = "" then pure none
    else (addressOr "Invalid winner address" proto.winner).map some
  pure
    { key, seller, bids, status, winner
      object := proto.object
      initialValue := proto.initialValue
      createdAt := proto.createdAt
      endsAt := proto.endsAt
      winningBid := if proto.winningBid = 0 then none else some proto.winningBid }

/-- The closure `From<Auction>` maps over the bids. -/
def bidToProto (bid : Bid) : Proto.Bid where
  buyer := bid.buyer.toStr
  auction := bid.auction.toStr
  amount := bid.amount

/-- `From<Auction> for kademlia::Auction`. -/
def toProto (auction : Auction) : Proto.Auction where
  key := auction.key.toStr
  object := auction.object
  initialValue := auction.initialValue
  seller := auction.seller.toStr
  bids := auction.bids.map bidToProto
  status := auction.status.asStr
  createdAt := auction.createdAt
  endsAt := auction.endsAt
  winner := (auction.winner.map Address.toStr).getD ""
  winningBid := auction.winningBid.getD 0

/-- `From<&Auction> for kademlia::Auction`. -/
def refToProto (auction : Auction) : Proto.Auction where
  key := auction.key.toStr
  object := auction.object
  initialValue := auction.initialValue
  seller := auction.seller.toStr
  bids := auction.bids.map fun bid =>
    { buyer := bid.buyer.toStr, auction := bid.auction.toStr, amount := bid.amount }
  status := auction.status.asStr
  createdAt := auction.createdAt
  endsAt := auction.endsAt
  winner := (auction.winner.map Address.toStr).getD ""
  winningBid := auction.winningBid.getD 0

/-- Both conversions give one record. -/
theorem refToProto_eq (auction : Auction) : auction.refToProto = auction.toProto := rfl

@[simp] theorem addressOr_toStr (what : String) (a : Address) :
    addressOr what a.toStr = .ok a := by simp [addressOr]

theorem bidTryFrom_bidToProto (bid : Bid) : bidTryFrom (bidToProto bid) = .ok bid := by
  simp only [bidTryFrom, bidToProto, addressOr_toStr]
  rfl

theorem mapM_bidTryFrom (bids : List Bid) :
    (bids.map bidToProto).mapM bidTryFrom = .ok bids := by
  induction bids with
  | nil => rfl
  | cons b bs ih =>
    rw [List.map_cons, List.mapM_cons, bidTryFrom_bidToProto, ih]
    rfl

/-- An auction whose winning bid is not zero survives the wire. -/
theorem tryFrom_toProto {a : Auction} (h : a.winningBid ≠ some 0) :
    tryFrom a.toProto = .ok a := by
  obtain ⟨key, object, initialValue, seller, bids, status, createdAt, endsAt, winner,
    winningBid⟩ := a
  have hbid : (if winningBid.getD 0 = 0 then none else some (winningBid.getD 0)) = winningBid := by
    cases winningBid with
    | none => rfl
    | some n => cases n with
      | zero => exact absurd rfl h
      | succ n => rfl
  cases winner with
  | none =>
    simp only [tryFrom, toProto, addressOr_toStr, mapM_bidTryFrom, AuctionStatus.fromStr_asStr,
      Option.map_none, Option.getD_none, if_true]
    exact congrArg (fun wb => (Except.ok (Auction.mk key object initialValue seller
      bids status createdAt endsAt none wb) : Except String Auction)) hbid
  | some w =>
    simp only [tryFrom, toProto, addressOr_toStr, mapM_bidTryFrom, AuctionStatus.fromStr_asStr,
      Option.map_some, Option.getD_some, Address.toStr_ne_empty, if_false]
    exact congrArg (fun wb => (Except.ok (Auction.mk key object initialValue seller
      bids status createdAt endsAt (some w) wb) : Except String Auction)) hbid

/-- What the wire makes of an auction: a winning bid of zero is protobuf's
default, and arrives as none. -/
def received (a : Auction) : Auction :=
  if a.winningBid = some 0 then { a with winningBid := none } else a

/-- An auction whose winning bid is not zero is received as it is. -/
theorem received_eq {a : Auction} (h : a.winningBid ≠ some 0) : a.received = a := by
  unfold received
  rw [if_neg h]

theorem tryFrom_toProto_received (a : Auction) : tryFrom a.toProto = .ok a.received := by
  unfold received
  split
  · rename_i hzero
    have hproto : a.toProto = toProto { a with winningBid := none } := by
      simp [toProto, hzero]
    rw [hproto]
    exact tryFrom_toProto (by simp)
  · rename_i hbid
    exact tryFrom_toProto hbid

/-! ## What decodes -/

theorem bind_eq_ok {α β : Type} {x : Except String α} {f : α → Except String β} {b : β} :
    x >>= f = .ok b ↔ ∃ a, x = .ok a ∧ f a = .ok b := by
  cases x with
  | error e => simp [bind, Except.bind]
  | ok a => simp [bind, Except.bind]

theorem addressOr_eq_ok {what s : String} {a : Address} :
    addressOr what s = .ok a ↔ Address.fromStr s = .ok a := by
  unfold addressOr
  cases Address.fromStr s <;> simp

theorem mapM_eq_ok {α β : Type} {f : α → Except String β} : ∀ {l : List α} {l' : List β},
    l.mapM f = .ok l' ↔ List.Forall₂ (fun a b => f a = .ok b) l l'
  | [], l' => by simp [List.mapM_nil, pure, Except.pure, eq_comm]
  | a :: l, l' => by
    simp only [List.mapM_cons, bind_eq_ok, pure, Except.pure, Except.ok.injEq, mapM_eq_ok]
    rw [List.forall₂_cons_left_iff]
    constructor
    · rintro ⟨b, hb, bs, hbs, rfl⟩
      exact ⟨b, bs, hb, hbs, rfl⟩
    · rintro ⟨b, bs, hb, hbs, rfl⟩
      exact ⟨b, hb, bs, hbs, rfl⟩

theorem bidTryFrom_eq_ok {b : Proto.Bid} {bid : Bid} :
    bidTryFrom b = .ok bid ↔ Address.fromStr b.buyer = .ok bid.buyer ∧
      Address.fromStr b.auction = .ok bid.auction ∧ bid.amount = b.amount := by
  obtain ⟨buyer, auction, amount⟩ := bid
  simp only [bidTryFrom, bind_eq_ok, addressOr_eq_ok, pure, Except.pure, Except.ok.injEq,
    Bid.mk.injEq]
  constructor
  · rintro ⟨_, hbuyer, _, hauction, rfl, rfl, rfl⟩
    exact ⟨hbuyer, hauction, rfl⟩
  · rintro ⟨hbuyer, hauction, rfl⟩
    exact ⟨_, hbuyer, _, hauction, rfl, rfl, rfl⟩

/-- The winner field: empty, or an address. -/
def WinnerReads (s : String) (winner : Option Address) : Prop :=
  (s = "" ∧ winner = none) ∨ (s ≠ "" ∧ ∃ a, Address.fromStr s = .ok a ∧ winner = some a)

/-- All that a decoded auction is made of. -/
theorem tryFrom_eq_ok {proto : Proto.Auction} {a : Auction} :
    tryFrom proto = .ok a ↔
      Address.fromStr proto.key = .ok a.key ∧ Address.fromStr proto.seller = .ok a.seller ∧
      List.Forall₂ (fun b bid => bidTryFrom b = .ok bid) proto.bids a.bids ∧
      AuctionStatus.fromStr proto.status = .ok a.status ∧ WinnerReads proto.winner a.winner ∧
      a.object = proto.object ∧ a.initialValue = proto.initialValue ∧
      a.createdAt = proto.createdAt ∧ a.endsAt = proto.endsAt ∧
      a.winningBid = if proto.winningBid = 0 then none else some proto.winningBid := by
  obtain ⟨key, object, initialValue, seller, bids, status, createdAt, endsAt, winner,
    winningBid⟩ := a
  unfold tryFrom WinnerReads
  by_cases hempty : proto.winner = ""
  · simp only [hempty, if_true, bind_eq_ok, addressOr_eq_ok, mapM_eq_ok, pure, Except.pure,
      Except.ok.injEq, Auction.mk.injEq, true_and, ne_eq, not_true_eq_false, false_and, or_false]
    constructor
    · rintro ⟨_, hkey, _, hseller, _, hbids, _, hstatus, _, rfl, rfl, rfl, rfl, rfl, rfl, rfl, rfl,
        rfl, rfl, rfl⟩
      exact ⟨hkey, hseller, hbids, hstatus, rfl, rfl, rfl, rfl, rfl, rfl⟩
    · rintro ⟨hkey, hseller, hbids, hstatus, rfl, rfl, rfl, rfl, rfl, rfl⟩
      exact ⟨_, hkey, _, hseller, _, hbids, _, hstatus, _, rfl, rfl, rfl, rfl, rfl, rfl, rfl, rfl,
        rfl, rfl, rfl⟩
  · have hwinner : ∀ w, (addressOr "Invalid winner address" proto.winner).map some = .ok w ↔
        ∃ a, Address.fromStr proto.winner = .ok a ∧ w = some a := by
      intro w
      unfold addressOr
      cases Address.fromStr proto.winner <;> simp [Except.map, eq_comm]
    simp only [hempty, if_false, bind_eq_ok, addressOr_eq_ok, mapM_eq_ok, hwinner, pure,
      Except.pure, Except.ok.injEq, Auction.mk.injEq, ne_eq, not_false_eq_true, true_and,
      false_and, false_or]
    constructor
    · rintro ⟨_, hkey, _, hseller, _, hbids, _, hstatus, _, ⟨w, hw, rfl⟩, rfl, rfl, rfl, rfl, rfl,
        rfl, rfl, rfl, rfl, rfl⟩
      exact ⟨hkey, hseller, hbids, hstatus, ⟨w, hw, rfl⟩, rfl, rfl, rfl, rfl, rfl⟩
    · rintro ⟨hkey, hseller, hbids, hstatus, ⟨w, hw, rfl⟩, rfl, rfl, rfl, rfl, rfl⟩
      exact ⟨_, hkey, _, hseller, _, hbids, _, hstatus, _, ⟨w, hw, rfl⟩, rfl, rfl, rfl, rfl, rfl,
        rfl, rfl, rfl, rfl, rfl⟩

/-- No decoded auction has a winning bid of zero. -/
theorem winningBid_of_tryFrom {proto : Proto.Auction} {a : Auction} (h : tryFrom proto = .ok a) :
    a.winningBid ≠ some 0 := by
  obtain ⟨_, _, _, _, _, _, _, _, _, hbid⟩ := tryFrom_eq_ok.mp h
  rw [hbid]
  split
  · exact nofun
  · rename_i hne
    exact fun heq => hne (Option.some.inj heq)

@[simp] theorem received_key (a : Auction) : a.received.key = a.key := by
  unfold received; split <;> rfl

@[simp] theorem received_bids (a : Auction) : a.received.bids = a.bids := by
  unfold received; split <;> rfl

@[simp] theorem received_initialValue (a : Auction) :
    a.received.initialValue = a.initialValue := by
  unfold received; split <;> rfl

end Auction

end KademliaAuction
