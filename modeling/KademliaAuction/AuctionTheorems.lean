/-
KademliaAuction.AuctionTheorems — an auction over any sequence of its own
calls.

`place_bid` and `close_if_expired` are the only methods that change an
auction. `Auction.InOrder` is what they keep: the bids carry the key and
rise strictly from above the starting price, and the winner fields name the
last bid once the auction is closed. Strict rise is what makes `max`,
`max_by_key` and "the last bid" agree (`InOrder.eq_last`).
`auction_state_machine` is the invariant over every run from
`new_with_duration`, whatever the clock says.
-/
import KademliaAuction.Auction

namespace KademliaAuction

open Blockchain

/-! ## Prices -/

/-- Every bid is above the starting price. -/
def Auction.AboveStart (auction : Auction) : Prop :=
  ∀ bid ∈ auction.bids, auction.initialValue < bid.amount

namespace Auction

theorem AboveStart.initialValue_le {a : Auction} (h : a.AboveStart) :
    a.initialValue ≤ a.highestBidAmount := by
  rcases a.highestBidAmount_cases with ⟨_, hprice⟩ | ⟨bid, hbid, hprice⟩
  · exact hprice.ge
  · rw [hprice]
    exact (h bid hbid).le

/-- More bids from the same starting price on make no lower price. -/
theorem AboveStart.highestBidAmount_mono {older newer : Auction} (h : newer.AboveStart)
    (hstart : older.initialValue ≤ newer.initialValue) (hbids : older.bids ⊆ newer.bids) :
    older.highestBidAmount ≤ newer.highestBidAmount := by
  rcases older.highestBidAmount_cases with ⟨_, hprice⟩ | ⟨bid, hbid, hprice⟩
  · rw [hprice]
    exact hstart.trans h.initialValue_le
  · rw [hprice]
    exact amount_le_highestBidAmount (hbids hbid)

theorem AboveStart.of_eq {a b : Auction} (h : a.AboveStart) (hbids : b.bids = a.bids)
    (hstart : b.initialValue = a.initialValue) : b.AboveStart := by
  unfold AboveStart
  rw [hbids, hstart]
  exact h

end Auction

/-! ## Auctions in order -/

namespace Auction

/-- The bid that has won: the last one, once the auction is closed. -/
def wonBid (a : Auction) : Option Bid :=
  match a.status with
  | .Open => none
  | .Closed => a.bids.getLast?

/-- The bids of the auction and its winner fit together. -/
structure InOrder (a : Auction) : Prop where
  bidKeys : ∀ bid ∈ a.bids, bid.auction = a.key
  increasing : (a.bids.map Bid.amount).Pairwise (· < ·)
  aboveStart : a.AboveStart
  winner : a.winner = a.wonBid.map Bid.buyer
  winningBid : a.winningBid = a.wonBid.map Bid.amount

theorem wonBid_of_open {a : Auction} (h : a.status = .Open) : a.wonBid = none := by
  simp [wonBid, h]

theorem wonBid_of_closed {a : Auction} (h : a.status = .Closed) : a.wonBid = a.bids.getLast? := by
  simp [wonBid, h]

namespace InOrder

variable {a : Auction}

/-- The last bid is the highest one. -/
theorem le_last (h : a.InOrder) {last : Bid} (hlast : a.bids.getLast? = some last) :
    ∀ bid ∈ a.bids, bid = last ∨ bid.amount < last.amount := by
  obtain ⟨earlier, hbids⟩ := List.getLast?_eq_some_iff.mp hlast
  have hincreasing := h.increasing
  rw [hbids, List.map_append, List.pairwise_append] at hincreasing
  intro bid hmem
  rw [hbids, List.mem_append, List.mem_singleton] at hmem
  rcases hmem with hearlier | rfl
  · exact Or.inr (hincreasing.2.2 _ (List.mem_map_of_mem hearlier) _ (by simp))
  · exact Or.inl rfl

/-- A highest bid is the last one. -/
theorem eq_last (h : a.InOrder) {bid : Bid} (hmem : bid ∈ a.bids)
    (hmax : ∀ b ∈ a.bids, b.amount ≤ bid.amount) : a.bids.getLast? = some bid := by
  cases hlast : a.bids.getLast? with
  | none =>
    rw [List.getLast?_eq_none_iff.mp hlast] at hmem
    cases hmem
  | some last =>
    have hle : last.amount ≤ bid.amount := hmax last (List.mem_of_getLast? hlast)
    rcases h.le_last hlast bid hmem with heq | hlt
    · rw [heq]
    · omega

/-- The price is that of the last bid. -/
theorem highestBidAmount_eq (h : a.InOrder) :
    a.highestBidAmount = (a.bids.getLast?.map Bid.amount).getD a.initialValue := by
  rcases a.highestBidAmount_cases with ⟨hnone, hprice⟩ | ⟨bid, hmem, hprice⟩
  · simp [hnone, hprice]
  · have hlast := h.eq_last hmem fun b hb => by
      rw [← hprice]
      exact amount_le_highestBidAmount hb
    rw [hprice, hlast]
    rfl

/-- An accepted bid goes on top. -/
theorem placeBid (h : a.InOrder) {a' : Auction} {buyer : Address} {amount : Nat} {now : Int}
    (hplaced : a.placeBid buyer amount now = .ok a') : a'.InOrder := by
  obtain ⟨hopen, _, hprice, rfl⟩ := placeBid_eq_ok.mp hplaced
  refine ⟨?_, ?_, ?_, ?_, ?_⟩
  · intro bid hbid
    rcases List.mem_append.mp hbid with hold | hnew
    · exact h.bidKeys bid hold
    · rw [List.mem_singleton.mp hnew]
  · rw [List.map_append, List.pairwise_append]
    refine ⟨h.increasing, List.pairwise_singleton _ _, fun x hx y hy => ?_⟩
    obtain ⟨bid, hbid, rfl⟩ := List.mem_map.mp hx
    obtain rfl : y = amount := List.mem_singleton.mp hy
    exact (amount_le_highestBidAmount hbid).trans_lt hprice
  · intro bid hbid
    rcases List.mem_append.mp hbid with hold | hnew
    · exact h.aboveStart bid hold
    · rw [List.mem_singleton.mp hnew]
      exact h.aboveStart.initialValue_le.trans_lt hprice
  · simpa [wonBid, hopen] using h.winner
  · simpa [wonBid, hopen] using h.winningBid

/-- Closing names the last bid. -/
theorem close (h : a.InOrder) (hopen : a.status = .Open) : a.close.InOrder := by
  have hnone := wonBid_of_open hopen
  have hwon : a.close.winner = a.bids.getLast?.map Bid.buyer ∧
      a.close.winningBid = a.bids.getLast?.map Bid.amount := by
    rcases a.close_winner_cases with ⟨bid, hmem, hmax, hwinner, hbid⟩ | ⟨hempty, hwinner, hbid⟩
    · rw [h.eq_last hmem hmax]
      exact ⟨hwinner, hbid⟩
    · rw [hwinner, hbid, h.winner, h.winningBid, hnone, hempty]
      exact ⟨rfl, rfl⟩
  refine ⟨?_, ?_, ?_, ?_, ?_⟩
  · rw [close_bids, close_key]
    exact h.bidKeys
  · rw [close_bids]
    exact h.increasing
  · exact h.aboveStart.of_eq a.close_bids a.close_initialValue
  · rw [wonBid_of_closed a.close_status, close_bids]
    exact hwon.1
  · rw [wonBid_of_closed a.close_status, close_bids]
    exact hwon.2

end InOrder

theorem inOrder_newWithDuration (crates : Crates) (object : String) (initialValue : Nat)
    (seller : Address) (durationMs now : Int) :
    (newWithDuration crates object initialValue seller durationMs now).InOrder where
  bidKeys := by simp
  increasing := by simp
  aboveStart := by simp [AboveStart]
  winner := by simp [wonBid]
  winningBid := by simp [wonBid]

end Auction

/-! ## Runs -/

/-- A call of one of the two methods that change an auction. -/
inductive AuctionCall where
  | placeBid (buyer : Address) (amount : Nat) (now : Int)
  | closeIfExpired (now : Int)

/-- Whether the call returns `Ok` or `true`, and the auction after it. A bid
is refused before anything is changed. -/
def AuctionCall.apply (a : Auction) : AuctionCall → Bool × Auction
  | .placeBid buyer amount now =>
      match a.placeBid buyer amount now with
      | .ok a' => (true, a')
      | .error _ => (false, a)
  | .closeIfExpired now => a.closeIfExpired now

namespace Auction

/-- The auction after a sequence of calls. -/
def after (a : Auction) (calls : List AuctionCall) : Auction :=
  calls.foldl (fun a call => (call.apply a).2) a

/-- What is fixed when an auction is created. -/
structure SameTerms (a a' : Auction) : Prop where
  key : a'.key = a.key
  object : a'.object = a.object
  initialValue : a'.initialValue = a.initialValue
  seller : a'.seller = a.seller
  createdAt : a'.createdAt = a.createdAt
  endsAt : a'.endsAt = a.endsAt

theorem SameTerms.refl (a : Auction) : a.SameTerms a := ⟨rfl, rfl, rfl, rfl, rfl, rfl⟩

theorem SameTerms.trans {a b c : Auction} (h : a.SameTerms b) (h' : b.SameTerms c) : a.SameTerms c where
  key := h'.key.trans h.key
  object := h'.object.trans h.object
  initialValue := h'.initialValue.trans h.initialValue
  seller := h'.seller.trans h.seller
  createdAt := h'.createdAt.trans h.createdAt
  endsAt := h'.endsAt.trans h.endsAt

theorem sameTerms_close (a : Auction) : a.SameTerms a.close := by
  refine ⟨?_, ?_, ?_, ?_, ?_, ?_⟩ <;> simp

end Auction

/-- All that a call can do: append an accepted bid to an open auction, close
an open auction, or fail and change nothing. -/
theorem AuctionCall.apply_cases (a : Auction) (call : AuctionCall) :
    (∃ buyer amount now a', a.placeBid buyer amount now = .ok a' ∧ call.apply a = (true, a')) ∨
      (a.status = .Open ∧ call.apply a = (true, a.close)) ∨ call.apply a = (false, a) := by
  cases call with
  | placeBid buyer amount now =>
    cases hplaced : a.placeBid buyer amount now with
    | ok a' => exact Or.inl ⟨buyer, amount, now, a', hplaced, by simp [AuctionCall.apply, hplaced]⟩
    | error e => exact Or.inr (Or.inr (by simp [AuctionCall.apply, hplaced]))
  | closeIfExpired now =>
    rcases a.closeIfExpired_cases now with ⟨hkept, _⟩ | ⟨hclosed, hopen, _⟩
    · exact Or.inr (Or.inr hkept)
    · exact Or.inr (Or.inl ⟨hopen, hclosed⟩)

namespace Auction

variable {a : Auction}

/-- One call keeps an auction in order, and its terms. -/
theorem InOrder.apply (h : a.InOrder) (call : AuctionCall) :
    (call.apply a).2.InOrder ∧ a.SameTerms (call.apply a).2 := by
  rcases call.apply_cases a with ⟨buyer, amount, now, a', hplaced, happly⟩ | ⟨hopen, happly⟩ | happly
  · rw [happly]
    refine ⟨h.placeBid hplaced, ?_⟩
    obtain ⟨_, _, _, rfl⟩ := placeBid_eq_ok.mp hplaced
    exact ⟨rfl, rfl, rfl, rfl, rfl, rfl⟩
  · rw [happly]
    exact ⟨h.close hopen, a.sameTerms_close⟩
  · rw [happly]
    exact ⟨h, SameTerms.refl a⟩

/-- A run keeps them too. -/
theorem InOrder.after (h : a.InOrder) (calls : List AuctionCall) :
    (a.after calls).InOrder ∧ a.SameTerms (a.after calls) := by
  induction calls generalizing a with
  | nil => exact ⟨h, SameTerms.refl a⟩
  | cons call calls ih =>
    obtain ⟨hnext, hterms⟩ := h.apply call
    obtain ⟨hlast, hterms'⟩ := ih hnext
    exact ⟨hlast, hterms.trans hterms'⟩

/-- A closed auction is final. -/
theorem apply_of_closed (h : a.status = .Closed) (call : AuctionCall) : (call.apply a).2 = a := by
  rcases call.apply_cases a with ⟨_, _, _, _, hplaced, _⟩ | ⟨hopen, _⟩ | happly
  · rw [(placeBid_eq_ok.mp hplaced).1] at h
    cases h
  · rw [hopen] at h
    cases h
  · rw [happly]

theorem apply_of_failed {call : AuctionCall} (h : (call.apply a).1 = false) :
    (call.apply a).2 = a := by
  rcases call.apply_cases a with ⟨_, _, _, _, _, happly⟩ | ⟨_, happly⟩ | happly
  · rw [happly] at h
    cases h
  · rw [happly] at h
    cases h
  · rw [happly]

/-- **The auction state machine**: after any calls, with any clock readings,
an auction has the terms it was created with; its bids carry its key and rise
strictly from above the starting price, the last one being the price; it has
no winner while it is open, and that of its last bid once it is closed; and a
call that fails, or comes after the closing, changes nothing. -/
theorem auction_state_machine (crates : Crates) (object : String) (initialValue : Nat)
    (seller : Address) (durationMs now : Int) (calls : List AuctionCall) :
    let start := newWithDuration crates object initialValue seller durationMs now
    let a := start.after calls
    start.SameTerms a ∧ a.object = object ∧ a.initialValue = initialValue ∧ a.seller = seller ∧
      (a.bids.map Bid.amount).Pairwise (· < ·) ∧
      (∀ bid ∈ a.bids, initialValue < bid.amount ∧ bid.auction = a.key) ∧
      a.highestBidAmount = (a.bids.getLast?.map Bid.amount).getD initialValue ∧
      (a.status = .Open → a.winner = none ∧ a.winningBid = none) ∧
      (a.status = .Closed → a.winner = a.bids.getLast?.map Bid.buyer ∧
        a.winningBid = a.bids.getLast?.map Bid.amount) ∧
      ∀ call : AuctionCall, ((call.apply a).1 = false → (call.apply a).2 = a) ∧
        (a.status = .Closed → (call.apply a).2 = a) := by
  intro start a
  obtain ⟨hinv, hterms⟩ := (inOrder_newWithDuration crates object initialValue seller durationMs
    now).after calls
  have hvalue : a.initialValue = initialValue := hterms.initialValue
  refine ⟨hterms, hterms.object, hvalue, hterms.seller, hinv.increasing, fun bid hbid => ?_, ?_,
    fun hopen => ?_, fun hclosed => ?_, fun call => ⟨apply_of_failed, fun h => apply_of_closed h call⟩⟩
  · rw [← hvalue]
    exact ⟨hinv.aboveStart bid hbid, hinv.bidKeys bid hbid⟩
  · rw [← hvalue]
    exact hinv.highestBidAmount_eq
  · have hnone := wonBid_of_open hopen
    exact ⟨hinv.winner.trans (congrArg _ hnone), hinv.winningBid.trans (congrArg _ hnone)⟩
  · have hlast := wonBid_of_closed hclosed
    exact ⟨hinv.winner.trans (congrArg _ hlast), hinv.winningBid.trans (congrArg _ hlast)⟩

end Auction

end KademliaAuction
