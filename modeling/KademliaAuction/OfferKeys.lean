/-
KademliaAuction.OfferKeys — what the key of an auction says about its offer.

`generate_key` hashes the object, the price in decimal and the seller,
written one after the other. The seller takes the last sixty-four
characters, but nothing separates the object from the price, so leading
digits of the price may just as well be the end of the object
(`Offer.DigitsMoved`). Up to that the hashed text determines the offer
(`Offer.text_eq_iff`), and `keys_identify_offers_iff` says for which pairs of
offers the key does, in `new_with_duration` and in a node's store.
-/
import KademliaAuction.NodeTheorems

namespace KademliaAuction

open Blockchain

/-- What a seller offers: all that the key of an auction is made of. -/
structure Offer where
  object : String
  initialValue : Nat
  seller : Address
  deriving DecidableEq

namespace Offer

/-- The text that `generate_key` hashes. -/
def text (o : Offer) : String := o.object ++ toString o.initialValue ++ o.seller.toStr

/-- `p` is `o` with leading digits of the price moved to the end of the
object. -/
def DigitsMoved (o p : Offer) : Prop :=
  o.seller = p.seller ∧ ∃ digits, digits ≠ "" ∧ p.object = o.object ++ digits ∧
    toString o.initialValue = digits ++ toString p.initialValue

theorem DigitsMoved.ne {o p : Offer} (h : o.DigitsMoved p) : o ≠ p := by
  rintro rfl
  obtain ⟨_, digits, hdigits, hobject, _⟩ := h
  have hlists := congrArg String.toList hobject
  rw [String.toList_append] at hlists
  exact hdigits (String.toList_inj.mp (List.self_eq_append_right.mp hlists))

theorem DigitsMoved.text_eq {o p : Offer} (h : o.DigitsMoved p) : o.text = p.text := by
  obtain ⟨hseller, digits, _, hobject, hprice⟩ := h
  simp only [text, hseller, hobject, hprice, String.append_assoc]

/-- The decimal digits of a number determine it. -/
theorem toString_nat_inj {m n : Nat} (h : toString m = toString n) : m = n := by
  have hdigits : Nat.toDigits 10 m = Nat.toDigits 10 n := by
    simpa only [Nat.toString_eq_repr, Nat.toList_repr] using congrArg String.toList h
  simpa using congrArg (fun digits => Nat.ofDigitChars 10 digits 0) hdigits

/-- Two ways to cut a text in two: one cut is at the other's or further
left. -/
theorem append_eq_append {s t u v : String} (h : s ++ t = u ++ v) :
    (∃ w, u = s ++ w ∧ t = w ++ v) ∨ ∃ w, s = u ++ w ∧ v = w ++ t := by
  have hlists := congrArg String.toList h
  simp only [String.toList_append] at hlists
  rcases List.append_eq_append_iff.mp hlists with ⟨w, hu, ht⟩ | ⟨w, hs, hv⟩
  · refine Or.inl ⟨String.ofList w, ?_, ?_⟩
    · simpa using congrArg String.ofList hu
    · simpa using congrArg String.ofList ht
  · refine Or.inr ⟨String.ofList w, ?_, ?_⟩
    · simpa using congrArg String.ofList hs
    · simpa using congrArg String.ofList hv

theorem eq_or_digitsMoved {o p : Offer} (hseller : o.seller = p.seller) {digits : String}
    (hobject : p.object = o.object ++ digits)
    (hprice : toString o.initialValue = digits ++ toString p.initialValue) :
    o = p ∨ o.DigitsMoved p := by
  by_cases hnone : digits = ""
  · subst hnone
    rw [String.append_empty] at hobject
    rw [String.empty_append] at hprice
    have hvalue := toString_nat_inj hprice
    cases o
    cases p
    exact Or.inl (by simp_all)
  · exact Or.inr ⟨hseller, digits, hnone, hobject, hprice⟩

/-- The text of an offer determines the seller, and the object and the price
up to digits that may belong to either. -/
theorem text_eq_iff {o p : Offer} :
    o.text = p.text ↔ o = p ∨ o.DigitsMoved p ∨ p.DigitsMoved o := by
  constructor
  · intro h
    have hlists := congrArg String.toList h
    simp only [text, String.toList_append (s := _ ++ _)] at hlists
    have hlength : o.seller.toStr.toList.length = p.seller.toStr.toList.length := by
      simp [Address.toStr, o.seller.length_eq, p.seller.length_eq]
    obtain ⟨hfront, hback⟩ := List.append_inj' hlists hlength
    have hseller : o.seller = p.seller := Address.toStr_inj.mp (String.toList_inj.mp hback)
    rcases append_eq_append (String.toList_inj.mp hfront) with
      ⟨digits, hobject, hprice⟩ | ⟨digits, hobject, hprice⟩
    · rcases eq_or_digitsMoved hseller hobject hprice with heq | hmoved
      · exact Or.inl heq
      · exact Or.inr (Or.inl hmoved)
    · rcases eq_or_digitsMoved hseller.symm hobject hprice with heq | hmoved
      · exact Or.inl heq.symm
      · exact Or.inr (Or.inr hmoved)
  · rintro (rfl | h | h)
    · rfl
    · exact h.text_eq
    · exact h.text_eq.symm

end Offer

/-! ## Keys -/

/-- The offer of an auction. -/
def Auction.offer (a : Auction) : Offer where
  object := a.object
  initialValue := a.initialValue
  seller := a.seller

/-- The auction that `new_with_duration` makes of an offer. -/
def Offer.auction (crates : Crates) (o : Offer) (durationMs now : Int) : Auction :=
  Auction.newWithDuration crates o.object o.initialValue o.seller durationMs now

/-- An auction for this offer, with the key of the offer. -/
structure Auction.IsFor (crates : Crates) (a : Auction) (o : Offer) : Prop where
  offer : a.offer = o
  key : a.key = a.generateKey crates

section Keys

variable {crates : Crates}

theorem Auction.generateKey_offer (crates : Crates) (a : Auction) :
    a.generateKey crates = Address.ofU256 (hashStr crates a.offer.text) :=
  a.generateKey_eq crates

/-- Everything else plays no part in the key. -/
theorem Auction.generateKey_congr {a b : Auction} (h : a.offer = b.offer) :
    a.generateKey crates = b.generateKey crates := by
  rw [generateKey_offer, generateKey_offer, h]

theorem Auction.newWithDuration_key (object : String) (initialValue : Nat) (seller : Address)
    (durationMs now : Int) :
    (newWithDuration crates object initialValue seller durationMs now).key =
      (newWithDuration crates object initialValue seller durationMs now).generateKey crates := by
  unfold newWithDuration
  simp only [generateKey_eq]

theorem Offer.isFor_auction (o : Offer) (durationMs now : Int) :
    (o.auction crates durationMs now).IsFor crates o where
  offer := rfl
  key := Auction.newWithDuration_key ..

/-- Two auctions have the same key when the texts of their offers have the
same hash. -/
theorem Auction.IsFor.key_eq_iff {a b : Auction} {o p : Offer} (ha : a.IsFor crates o)
    (hb : b.IsFor crates p) : a.key = b.key ↔ hashStr crates o.text = hashStr crates p.text := by
  rw [ha.key, hb.key, generateKey_offer, generateKey_offer, ha.offer, hb.offer]
  constructor
  · intro h
    simpa using congrArg Address.asU256 h
  · intro h
    rw [h]

/-- Storing an auction puts it in the place of one with the same key, and of
no other. -/
theorem Host.mem_storeAuction_iff (host : Host) (effects : Effects) {a b : Auction}
    (ha : a ∈ host.node.auctions) :
    a ∈ (host.storeAuction crates effects b).2.node.auctions ↔ a = b ∨ a.key ≠ b.key := by
  rw [mem_storeAuction]
  simp [ha]

/-- **Keys and offers**: where the hash does not confuse the texts of two
offers, equal keys mean equal offers, and `store_auction` never puts an
auction for one offer in the place of one for the other, exactly when the
offers do not differ by digits moved between object and price. -/
theorem keys_identify_offers_iff (crates : Crates) (first second : Offer)
    (hcollision : hashStr crates first.text = hashStr crates second.text →
      first.text = second.text) :
    ((∀ d t d' t', (first.auction crates d t).key = (second.auction crates d' t').key →
        first.object = second.object ∧ first.initialValue = second.initialValue ∧
          first.seller = second.seller) ∧
      ∀ (host : Host) (effects : Effects) (a b : Auction), a.IsFor crates first →
        b.IsFor crates second → a ∈ host.node.auctions →
          a ∈ (host.storeAuction crates effects b).2.node.auctions ∨ a.offer = b.offer) ↔
      ¬ (first.DigitsMoved second ∨ second.DigitsMoved first) := by
  constructor
  · rintro ⟨hkeys, _⟩ hmoved
    have htext : first.text = second.text := Offer.text_eq_iff.mpr (Or.inr hmoved)
    have hkey : (first.auction crates 0 0).key = (second.auction crates 0 0).key :=
      ((first.isFor_auction 0 0).key_eq_iff (second.isFor_auction 0 0)).mpr (by rw [htext])
    have heq : first = second := by
      obtain ⟨hobject, hvalue, hseller⟩ := hkeys 0 0 0 0 hkey
      cases first
      cases second
      simp_all
    rcases hmoved with h | h
    · exact h.ne heq
    · exact h.ne heq.symm
  · intro hmoved
    have hsame : ∀ {a b : Auction}, a.IsFor crates first → b.IsFor crates second →
        a.key = b.key → first = second := by
      intro a b ha hb hkey
      have htext := hcollision ((ha.key_eq_iff hb).mp hkey)
      exact (Offer.text_eq_iff.mp htext).resolve_right hmoved
    refine ⟨fun d t d' t' hkey => ?_, fun host effects a b ha hb hmem => ?_⟩
    · rw [hsame (first.isFor_auction d t) (second.isFor_auction d' t') hkey]
      exact ⟨rfl, rfl, rfl⟩
    · by_cases hkey : a.key = b.key
      · exact Or.inr (by rw [ha.offer, hb.offer, hsame ha hb hkey])
      · exact Or.inl ((host.mem_storeAuction_iff effects hmem).mpr (Or.inr hkey))

end Keys

/-- A digest that tells texts with different sums of bytes apart. -/
def byteSum : Crates where
  sha256 := fun bytes => BitVec.ofNat 256 (bytes.map UInt8.toNat).sum
  blockToString := fun _ => ""

/-- A camera, for a price. -/
def camera (initialValue : Nat) : Offer where
  object := "camera"
  initialValue := initialValue
  seller := Address.ofU256 1

theorem keys_identify_offers_iff_camera :
    ((∀ d t d' t', ((camera 20).auction byteSum d t).key = ((camera 30).auction byteSum d' t').key →
        (camera 20).object = (camera 30).object ∧
          (camera 20).initialValue = (camera 30).initialValue ∧
          (camera 20).seller = (camera 30).seller) ∧
      ∀ (host : Host) (effects : Effects) (a b : Auction), a.IsFor byteSum (camera 20) →
        b.IsFor byteSum (camera 30) → a ∈ host.node.auctions →
          a ∈ (host.storeAuction byteSum effects b).2.node.auctions ∨ a.offer = b.offer) ↔
      ¬ ((camera 20).DigitsMoved (camera 30) ∨ (camera 30).DigitsMoved (camera 20)) :=
  keys_identify_offers_iff byteSum (camera 20) (camera 30)
    fun h => absurd h (by decide +kernel)

/-- A lot for 10, and the offer whose text puts the 1 into the name. -/
def lot : Offer where
  object := "lot"
  initialValue := 10
  seller := Address.ofU256 1

def lotOne : Offer where
  object := "lot1"
  initialValue := 0
  seller := Address.ofU256 1

/-- The offers "lot" for 10 and "lot1" for 0 have one key, whatever the
hash. -/
theorem moved_digit_same_key :
    ¬ ∀ (crates : Crates) (first second : Offer) (d t d' t' : Int),
      first.initialValue < 2 ^ 64 → second.initialValue < 2 ^ 64 →
      (hashStr crates first.text = hashStr crates second.text → first.text = second.text) →
      (first.auction crates d t).key = (second.auction crates d' t').key →
        first.object = second.object ∧ first.initialValue = second.initialValue ∧
          first.seller = second.seller := by
  intro hclaim
  have hmoved : lot.DigitsMoved lotOne := ⟨rfl, "1", by decide, by decide, by decide⟩
  have hkey : (lot.auction byteSum 1 0).key = (lotOne.auction byteSum 1 0).key :=
    ((lot.isFor_auction 1 0).key_eq_iff (lotOne.isFor_auction 1 0)).mpr (by rw [hmoved.text_eq])
  have hsame := hclaim byteSum lot lotOne 1 0 1 0 (by decide) (by decide)
    (fun _ => hmoved.text_eq) hkey
  exact absurd hsame.1 (by decide)

end KademliaAuction
