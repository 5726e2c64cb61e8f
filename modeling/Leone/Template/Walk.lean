import Leone.Framework.Method
import Leone.Template.Layout

/-!
# The walk over a JSON document

The walk that looks for repeated fields counts the nodes of the document and bounds its depth. A
field counts one node beside its value, and so does the end of an object.
-/

namespace Leone.Template

open Framework

def maxJsonNodes : Nat := 32 * 1024
def maxJsonDepth : Nat := 64

inductive JsonWalkError
  | nodeLimit
  | depthLimit
  | duplicateField (key : String)
  deriving DecidableEq

/-- The number of nodes with one more. -/
def claim (nodes : Nat) : Except JsonWalkError Nat :=
  if nodes ≥ maxJsonNodes then .error .nodeLimit else .ok (nodes + 1)

def checkDepth (depth : Nat) : Except JsonWalkError Unit :=
  if depth ≥ maxJsonDepth then .error .depthLimit else .ok ()

def insertKey (keys : List String) (key : String) : Except JsonWalkError (List String) :=
  if key ∈ keys then .error (.duplicateField key) else .ok (key :: keys)

mutual

/-- The walk over a value at a depth. -/
def visit (depth : Nat) : Value → Nat → Except JsonWalkError Nat
  | .null, nodes => claim nodes
  | .bool _, nodes => claim nodes
  | .number _, nodes => claim nodes
  | .string _, nodes => claim nodes
  | .array values, nodes => do
    let nodes ← claim nodes
    checkDepth depth
    visitSeq depth values nodes
  | .object entries, nodes => do
    let nodes ← claim nodes
    checkDepth depth
    visitMap depth entries [] nodes

def visitSeq (depth : Nat) : List Value → Nat → Except JsonWalkError Nat
  | [], nodes => .ok nodes
  | value :: values, nodes => do
    let nodes ← visit (depth + 1) value nodes
    visitSeq depth values nodes

def visitMap (depth : Nat) : List (String × Value) → List String → Nat → Except JsonWalkError Nat
  | [], _, nodes => claim nodes
  | (key, value) :: entries, keys, nodes => do
    let nodes ← claim nodes
    let keys ← insertKey keys key
    let nodes ← visit (depth + 1) value nodes
    visitMap depth entries keys nodes

end

/-- The walk reaches the end of the document. -/
def Accepted (value : Value) : Prop := ∃ nodes, visit 0 value 0 = .ok nodes

/-! ## What the walk counts -/

mutual

def Value.nodes : Value → Nat
  | .array values => nodesOfValues values + 1
  | .object entries => nodesOfFields entries + 2
  | _ => 1

def nodesOfValues : List Value → Nat
  | [] => 0
  | value :: values => value.nodes + nodesOfValues values

def nodesOfFields : List (String × Value) → Nat
  | [] => 0
  | (_, value) :: entries => value.nodes + 1 + nodesOfFields entries

end

mutual

def Value.nesting : Value → Nat
  | .array values => nestingOfValues values + 1
  | .object entries => nestingOfFields entries + 1
  | _ => 0

def nestingOfValues : List Value → Nat
  | [] => 0
  | value :: values => max value.nesting (nestingOfValues values)

def nestingOfFields : List (String × Value) → Nat
  | [] => 0
  | (_, value) :: entries => max value.nesting (nestingOfFields entries)

end

theorem claim_eq_ok {nodes counted : Nat} :
    claim nodes = .ok counted ↔ counted = nodes + 1 ∧ counted ≤ maxJsonNodes := by
  unfold claim
  split_ifs with hfull
  · simp only [false_iff]
    omega
  · rw [Except.ok.injEq]
    omega

theorem checkDepth_eq_ok {depth : Nat} : checkDepth depth = .ok () ↔ depth < maxJsonDepth := by
  unfold checkDepth
  split_ifs with hdeep
  · simp only [false_iff]
    omega
  · simp only [true_iff]
    omega

theorem insertKey_of_notMem {keys : List String} {key : String} (h : key ∉ keys) :
    insertKey keys key = .ok (key :: keys) := if_neg h

/-- The walk ends if and only if the document keeps both limits, and it has counted its nodes. -/
def Counts (value : Value) : Prop :=
  ∀ depth nodes counted, depth ≤ maxJsonDepth →
    (visit depth value nodes = .ok counted ↔
      counted = nodes + value.nodes ∧ counted ≤ maxJsonNodes ∧
        depth + value.nesting ≤ maxJsonDepth)

theorem counts_scalar {value : Value} (hvisit : ∀ depth nodes, visit depth value nodes = claim nodes)
    (hnodes : value.nodes = 1) (hnesting : value.nesting = 0) : Counts value := by
  intro depth nodes counted hdepth
  rw [hvisit, claim_eq_ok, hnodes, hnesting]
  omega

theorem visitSeq_eq_ok {depth : Nat} (hdepth : depth < maxJsonDepth) {values : List Value}
    (h : ∀ value ∈ values, Counts value) {nodes counted : Nat} (hnodes : nodes ≤ maxJsonNodes) :
    visitSeq depth values nodes = .ok counted ↔
      counted = nodes + nodesOfValues values ∧ counted ≤ maxJsonNodes ∧
        depth + 1 + nestingOfValues values ≤ maxJsonDepth := by
  induction values generalizing nodes with
  | nil =>
    simp only [visitSeq, nodesOfValues, nestingOfValues, Except.ok.injEq]
    omega
  | cons value values ih =>
    have hvalue := h value List.mem_cons_self
    have hvalues := fun {nodes} => @ih (fun other hother => h other (List.mem_cons_of_mem value hother)) nodes
    simp only [visitSeq, bind_eq_ok, nodesOfValues, nestingOfValues]
    constructor
    · intro hwalk
      rcases hwalk with ⟨middle, hfirst, hrest⟩
      rw [hvalue _ _ _ hdepth] at hfirst
      rw [hvalues hfirst.2.1] at hrest
      omega
    · intro hends
      refine ⟨nodes + value.nodes, ?_, ?_⟩
      · rw [hvalue _ _ _ hdepth]
        omega
      · rw [hvalues (by omega)]
        omega

theorem visitMap_eq_ok {depth : Nat} (hdepth : depth < maxJsonDepth)
    {entries : List (String × Value)} (h : ∀ entry ∈ entries, Counts entry.2) {keys : List String}
    (hkeys : (entries.map Prod.fst).Nodup) (hnew : ∀ key ∈ entries.map Prod.fst, key ∉ keys)
    {nodes counted : Nat} :
    visitMap depth entries keys nodes = .ok counted ↔
      counted = nodes + nodesOfFields entries + 1 ∧ counted ≤ maxJsonNodes ∧
        depth + 1 + nestingOfFields entries ≤ maxJsonDepth := by
  induction entries generalizing keys nodes with
  | nil =>
    simp only [visitMap, nodesOfFields, nestingOfFields, claim_eq_ok]
    omega
  | cons entry entries ih =>
    have hvalue := h entry List.mem_cons_self
    rw [List.map_cons, List.nodup_cons] at hkeys
    rw [List.map_cons, List.forall_mem_cons] at hnew
    have hlater : ∀ key ∈ entries.map Prod.fst, key ∉ entry.1 :: keys := by
      intro key hkey hmem
      rcases List.mem_cons.mp hmem with rfl | hmem
      · exact hkeys.1 hkey
      · exact hnew.2 key hkey hmem
    have hentries := fun {nodes} =>
      @ih (fun other hother => h other (List.mem_cons_of_mem entry hother)) _ hkeys.2 hlater nodes
    simp only [visitMap, bind_eq_ok, claim_eq_ok, insertKey_of_notMem hnew.1, nodesOfFields,
      nestingOfFields, Except.ok.injEq]
    constructor
    · intro hwalk
      rcases hwalk with ⟨claimed, hclaim, _, rfl, middle, hfirst, hrest⟩
      rw [hvalue _ _ _ hdepth] at hfirst
      rw [hentries] at hrest
      omega
    · intro hends
      refine ⟨nodes + 1, by omega, _, rfl, nodes + 1 + entry.2.nodes, ?_, ?_⟩
      · rw [hvalue _ _ _ hdepth]
        omega
      · rw [hentries]
        omega

theorem counts_of_valid {json : SerdeJson} {value : Value} (hvalid : value.Valid json) :
    Counts value := by
  induction value using Value.nested with
  | null => exact counts_scalar (fun _ _ => rfl) rfl rfl
  | bool value => exact counts_scalar (fun _ _ => rfl) rfl rfl
  | number text => exact counts_scalar (fun _ _ => rfl) rfl rfl
  | string text => exact counts_scalar (fun _ _ => rfl) rfl rfl
  | array values ih =>
    intro depth nodes counted hdepth
    have hvalues : ∀ value ∈ values, Counts value := fun value hvalue =>
      ih value hvalue (validValues_iff.mp hvalid value hvalue)
    simp only [visit, bind_eq_ok, claim_eq_ok, Value.nodes, Value.nesting]
    constructor
    · intro hwalk
      rcases hwalk with ⟨claimed, hclaim, _, hcheck, hrest⟩
      rw [visitSeq_eq_ok (checkDepth_eq_ok.mp hcheck) hvalues hclaim.2] at hrest
      omega
    · intro hends
      refine ⟨nodes + 1, by omega, (), checkDepth_eq_ok.mpr (by omega), ?_⟩
      rw [visitSeq_eq_ok (by omega) hvalues (by omega)]
      omega
  | object entries ih =>
    intro depth nodes counted hdepth
    have hentries : ∀ entry ∈ entries, Counts entry.2 := fun entry hentry =>
      ih entry hentry (validFields_iff.mp hvalid.2 entry hentry)
    have hkeys : (entries.map Prod.fst).Nodup := hvalid.1.imp ne_of_lt
    simp only [visit, bind_eq_ok, claim_eq_ok, Value.nodes, Value.nesting]
    constructor
    · intro hwalk
      rcases hwalk with ⟨claimed, hclaim, _, hcheck, hrest⟩
      rw [visitMap_eq_ok (checkDepth_eq_ok.mp hcheck) hentries hkeys (by simp)] at hrest
      omega
    · intro hends
      refine ⟨nodes + 1, by omega, (), checkDepth_eq_ok.mpr (by omega), ?_⟩
      rw [visitMap_eq_ok (by omega) hentries hkeys (by simp)]
      omega

/-- The walk reaches the end of a document that keeps both limits. -/
theorem accepted_iff {json : SerdeJson} {value : Value} (hvalid : value.Valid json) :
    Accepted value ↔ value.nodes ≤ maxJsonNodes ∧ value.nesting ≤ maxJsonDepth := by
  have hcounts := fun counted => counts_of_valid hvalid 0 0 counted (Nat.zero_le _)
  constructor
  · intro h
    rcases h with ⟨counted, hwalk⟩
    rw [hcounts] at hwalk
    omega
  · intro h
    exact ⟨value.nodes, (hcounts _).mpr (by omega)⟩

end Leone.Template
