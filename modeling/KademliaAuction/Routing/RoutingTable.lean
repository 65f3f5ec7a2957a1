/-
KademliaAuction.Routing.RoutingTable — nodes, k-buckets and the routing
table (`NodeInfo` of `src/node.rs`, `src/routing/kbucket.rs`,
`src/routing/routing_table.rs`).

The table is a list of buckets, 255 of them from `RoutingTable.new` on. The
read-write lock around it is left out (each method takes it once, for its
whole body), and so is `last_refresh_time`, which nothing reads. Loops are
recursions over the list they run through, with the loop's variables as
arguments and its `break` as an early result.
-/
import KademliaAuction.Blockchain.Address
import KademliaAuction.Proto
import KademliaAuction.Utils.Config

namespace KademliaAuction

open Blockchain

/-! ## Nodes -/

/-- `struct NodeInfo`. -/
structure NodeInfo where
  id : Address
  ip : String
  port : Nat
  deriving DecidableEq

namespace NodeInfo

/-- `TryFrom<&NodeInformation> for NodeInfo`. -/
def tryFrom (node : Proto.NodeInformation) : Except String NodeInfo :=
  match Address.fromStr node.id with
  | .ok id => .ok { id, ip := node.ip, port := node.port }
  | .error e => .error s!"Invalid hex ID in response: {e.message}"

/-- `From<&NodeInfo> for NodeInformation`. -/
def toInformation (node : NodeInfo) : Proto.NodeInformation where
  id := node.id.toStr
  ip := node.ip
  port := node.port

@[simp] theorem tryFrom_toInformation (node : NodeInfo) : tryFrom node.toInformation = .ok node := by
  simp [tryFrom, toInformation]

theorem toInformation_injective : Function.Injective toInformation := by
  intro a b h
  have hparse : tryFrom a.toInformation = .ok b := by rw [h, tryFrom_toInformation]
  rw [tryFrom_toInformation] at hparse
  exact Except.ok.inj hparse

end NodeInfo

/-! ## Buckets -/

/-- `U256::leading_zeros`. -/
def leadingZeros (n : U256) : Nat := if n = 0 then 256 else 255 - n.toNat.log2

namespace Routing

/-- `struct KBucket`. -/
structure KBucket where
  list : List NodeInfo
  deriving DecidableEq

/-- `KBucket::new`. -/
def KBucket.new : KBucket := ⟨[]⟩

/-- `KBucket::len`. -/
def KBucket.len (bucket : KBucket) : Nat := bucket.list.length

/-- `evict_from_bucket`: split the list at the first entry of this id, drop
that entry and append the rest again. -/
def evictFromBucket (bucket : KBucket) (nodeId : Address) : KBucket :=
  match bucket.list.findIdx? fun node => node.id = nodeId with
  | some idx => ⟨bucket.list.take idx ++ (bucket.list.drop idx).tail⟩
  | none => bucket

/-- What `insert_contact` does to the bucket: evict the id, drop the front
entry of a full list, append the contact. -/
def pushContact (maxKbucketEntries : Nat) (bucket : KBucket) (nodeInfo : NodeInfo) : KBucket :=
  let evicted := evictFromBucket bucket nodeInfo.id
  let room : KBucket := if evicted.len = maxKbucketEntries then ⟨evicted.list.tail⟩ else evicted
  ⟨room.list ++ [nodeInfo]⟩

/-! ## The table -/

/-- `struct RoutingTable`. -/
structure RoutingTable where
  id : Address
  config : Config
  table : List KBucket

namespace RoutingTable

/-- `RoutingTable::new`. -/
def new (nodeInfo : NodeInfo) (config : Config) : RoutingTable where
  id := nodeInfo.id
  config := config
  table := List.replicate 255 KBucket.new

/-- `table[idx]`. -/
def bucket (rt : RoutingTable) (idx : Nat) : KBucket := rt.table.getD idx KBucket.new

/-- `get_bucket_index`. -/
def getBucketIndex (rt : RoutingTable) (nodeId : Address) : Option Nat :=
  let lz := leadingZeros (rt.id.distance nodeId)
  if lz = 256 then none
  else if lz = 255 then some 0
  else some (254 - lz)

/-- `insert_contact`. -/
def insertContact (rt : RoutingTable) (nodeInfo : NodeInfo) : Option Unit × RoutingTable :=
  if nodeInfo.id = rt.id then (none, rt)
  else
    match rt.getBucketIndex nodeInfo.id with
    | none => (none, rt)
    | some idx =>
        let bucket := pushContact rt.config.maxKbucketEntries (rt.bucket idx) nodeInfo
        (some (), { rt with table := rt.table.set idx bucket })

/-- `find_node_id`. -/
def findNodeId (rt : RoutingTable) (nodeId : Address) : Option NodeInfo :=
  if nodeId = rt.id then none
  else
    match rt.getBucketIndex nodeId with
    | none => none
    | some idx => (rt.bucket idx).list.find? fun node => node.id = nodeId

/-! ## The closest nodes -/

/-- One arm of the loop over neighbouring indices: push an index that is in
range and not visited yet, and mark it. -/
def visitIndex (len : Nat) (index? : Option Nat) (state : List Bool × List Nat) :
    List Bool × List Nat :=
  match index? with
  | some l =>
      if l < len ∧ state.1.getD l false = false then (state.1.set l true, state.2 ++ [l]) else state
  | none => state

/-- `for i in 1..table.len()`: the indices below and above the target's, in
turn, until all are listed. `checked_sub` gives the lower one. -/
def neighborIndices (len targetIdx : Nat) : List Nat → List Bool × List Nat → List Nat
  | [], state => state.2
  | i :: is, state =>
      let lower := if i ≤ targetIdx then some (targetIdx - i) else none
      let state := visitIndex len lower state
      let state := visitIndex len (some (targetIdx + i)) state
      if state.2.length ≥ len then state.2 else neighborIndices len targetIdx is state

/-- The order in which `get_k_closest_nodes` looks at the buckets. -/
def bucketIndices (rt : RoutingTable) (targetId : Address) : List Nat :=
  let len := rt.table.length
  match rt.getBucketIndex targetId with
  | some targetIdx =>
      neighborIndices len targetIdx (List.range' 1 (len - 1))
        (List.replicate len false, [targetIdx])
  | none => List.range len

/-- `for &idx in &bucket_indices`: collect whole buckets until there are
`k_value` nodes. -/
def collectNodes (rt : RoutingTable) : List Nat → List NodeInfo → List NodeInfo
  | [], result => result
  | idx :: rest, result =>
      let result := result ++ (rt.bucket idx).list.filter fun node => node.id ≠ rt.id
      if result.length ≥ rt.config.kValue then result else collectNodes rt rest result

/-- The order of `sort_by_key(|node| node.id.distance(&target_id))`. -/
def closerOrEqual (targetId : Address) (a b : NodeInfo) : Bool :=
  decide (a.id.distance targetId ≤ b.id.distance targetId)

/-- `get_k_closest_nodes`, started on the given `result` vector. -/
def getKClosestNodes (rt : RoutingTable) (targetId : Address) (result : List NodeInfo) :
    List NodeInfo :=
  let collected := rt.collectNodes (rt.bucketIndices targetId) result
  (collected.mergeSort (closerOrEqual targetId)).take rt.config.kValue

/-- A history of insertions. -/
def insertAll (rt : RoutingTable) (contacts : List NodeInfo) : RoutingTable :=
  contacts.foldl (fun rt contact => (rt.insertContact contact).2) rt

end RoutingTable

end Routing

end KademliaAuction
