import RTDB.Lib.Names
import RTDB.Lib.StackSearch
import RTDB.Migration.Transform
import RTDB.Storage.Types
import Mathlib.Algebra.BigOperators.Group.Finset.Piecewise
import Mathlib.Data.List.AList

/-!
# The knowledge graph

`smart/knowledge_graph.rs`: the entities of the texts, by phrases of capitalized words, the
relations between entities, and the path that `find_path` searches.  Which characters are upper
case is a parameter.
-/

namespace RTDB
namespace Smart

open Storage StackSearch

inductive EntityType where
  | person | organization | location | concept | product | event | unknown
  deriving DecidableEq, Repr

structure Entity where
  id : String
  type : EntityType
  name : String
  aliases : List String
  deriving DecidableEq, Repr

inductive PredicateType where
  | isA | partOf | locatedIn | worksFor | creates | causes | mentions
  deriving DecidableEq, Repr

structure Relation where
  subject : String
  predicate : PredicateType
  object : String
  source : VectorId
  deriving DecidableEq, Repr

structure KnowledgeGraph where
  entities : AList fun _ : String => Entity
  relations : List Relation
  mentions : AList fun _ : VectorId => List String

namespace KnowledgeGraph

def new : KnowledgeGraph := { entities := ∅, relations := [], mentions := ∅ }

def addRelation (g : KnowledgeGraph) (relation : Relation) : KnowledgeGraph :=
  { g with relations := g.relations ++ [relation] }

/-! ## Entities -/

def entityId (n : Nat) : String := s!"entity_{n}"

def extracted (id : String) (phrase : List String) : Entity :=
  { id := id, type := .unknown, name := " ".intercalate phrase, aliases := [] }

def splitWhitespace (text : String) : List String :=
  ((text.toList.splitOnP Migration.isWhiteSpace).filter (· ≠ [])).map String.ofList

section Extraction

variable (isUppercase : Char → Bool)

def capitalized (word : String) : Bool := word.toList.head?.any isUppercase

/-- The graph and the ids found so far. -/
structure Extraction where
  graph : KnowledgeGraph
  found : List String

def Extraction.close (e : Extraction) (phrase : List String) : Extraction :=
  if phrase = [] then e
  else
    let id := entityId e.graph.entities.entries.length
    { graph := { e.graph with entities := e.graph.entities.insert id (extracted id phrase) }
      found := e.found ++ [id] }

/-- The loop over the words, with the capitalized words since the last other one. -/
def extractLoop : List String → List String → Extraction → Extraction
  | [], phrase, e => e.close phrase
  | word :: words, phrase, e =>
    if capitalized isUppercase word then extractLoop words (phrase ++ [word]) e
    else extractLoop words [] (e.close phrase)

def extractEntities (g : KnowledgeGraph) (text : String) (docId : VectorId) :
    KnowledgeGraph × List String :=
  let e := extractLoop isUppercase (splitWhitespace text) [] { graph := g, found := [] }
  ({ e.graph with mentions := e.graph.mentions.insert docId e.found }, e.found)

/-- The longest runs of capitalized words. -/
def phrases (words : List String) : List (List String) :=
  (words.splitOnP fun word => !capitalized isUppercase word).filter (· ≠ [])

end Extraction

/-! ## Relations -/

def findRelations (g : KnowledgeGraph) (entityId : String) : List Relation :=
  g.relations.filter fun r => r.subject = entityId ∨ r.object = entityId

/-- The relations of an entity, each with the entity at its other end. -/
def steps (g : KnowledgeGraph) (current : String) : List (Relation × String) :=
  (g.findRelations current).map fun rel =>
    (rel, if rel.subject = current then rel.object else rel.subject)

/-- The loop takes at most this many entries from its stack, and then finds it empty. -/
def pops (g : KnowledgeGraph) : Nat := 2 * g.relations.length + 2

def findPath (g : KnowledgeGraph) (a b : String) (maxDepth : Nat) : Option (List Relation) :=
  (search g.steps b maxDepth g.pops (start a)).join

/-- A relation between two entities, in either direction. -/
def Related (g : KnowledgeGraph) (v w : String) : Prop :=
  ∃ rel ∈ g.relations, (rel.subject = v ∧ rel.object = w) ∨ (rel.subject = w ∧ rel.object = v)

variable {g : KnowledgeGraph} {a b v w : String} {maxDepth : Nat} {path : List Relation}

theorem mem_steps {rel : Relation} (hmem : (rel, w) ∈ g.steps v) : rel ∈ g.relations ∧
    ((rel.subject = v ∧ rel.object = w) ∨ (rel.subject = w ∧ rel.object = v)) := by
  obtain ⟨r, hr, heq⟩ := List.mem_map.mp hmem
  obtain ⟨rfl, rfl⟩ := Prod.mk.inj heq
  obtain ⟨hr, hends⟩ := List.mem_filter.mp hr
  refine ⟨hr, ?_⟩
  by_cases hsubject : r.subject = v
  · rw [if_pos hsubject]
    exact Or.inl ⟨hsubject, rfl⟩
  · rw [if_neg hsubject]
    exact Or.inr ⟨rfl, (of_decide_eq_true hends).resolve_left hsubject⟩

theorem linked_steps : Linked g.steps v w ↔ g.Related v w := by
  constructor
  · rintro ⟨rel, hmem⟩
    exact ⟨rel, mem_steps hmem⟩
  · rintro ⟨rel, hrel, hends⟩
    refine ⟨rel, List.mem_map.mpr ⟨rel, List.mem_filter.mpr ⟨hrel, decide_eq_true ?_⟩, ?_⟩⟩
    · exact hends.imp And.left And.right
    · rcases hends with ⟨hsubject, hobject⟩ | ⟨hsubject, hobject⟩
      · rw [if_pos hsubject, hobject]
      · by_cases hloop : rel.subject = v
        · rw [if_pos hloop, hobject, ← hsubject, hloop]
        · rw [if_neg hloop, hsubject]

/-! ## The loop of `find_path` ends -/

def named (g : KnowledgeGraph) : Finset String :=
  (g.relations.map Relation.subject ++ g.relations.map Relation.object).toFinset

theorem mem_named (hsteps : g.steps v ≠ []) : v ∈ g.named := by
  obtain ⟨step, hstep⟩ := List.exists_mem_of_ne_nil _ hsteps
  have hpair : (step.1, step.2) ∈ g.steps v := hstep
  obtain ⟨hrel, hends⟩ := mem_steps hpair
  rw [named, List.mem_toFinset, List.mem_append]
  rcases hends with ⟨hsubject, -⟩ | ⟨-, hobject⟩
  · exact Or.inl (List.mem_map.mpr ⟨step.1, hrel, hsubject⟩)
  · exact Or.inr (List.mem_map.mpr ⟨step.1, hrel, hobject⟩)

/-- Each relation is found from its two ends only. -/
theorem sum_steps_le (nodes : Finset String) (g : KnowledgeGraph) :
    ∑ v ∈ nodes, (g.steps v).length ≤ 2 * g.relations.length := by
  have hfilter : ∀ rels : List Relation,
      ∑ v ∈ nodes, (rels.filter fun r => r.subject = v ∨ r.object = v).length ≤ 2 * rels.length := by
    intro rels
    induction rels with
    | nil => simp
    | cons rel rels ih =>
      have hone : ∑ v ∈ nodes, (if rel.subject = v ∨ rel.object = v then 1 else 0) ≤ 2 := by
        rw [← Finset.card_filter]
        refine (Finset.card_le_card (t := {rel.subject, rel.object}) ?_).trans Finset.card_le_two
        intro v hv
        rw [Finset.mem_insert, Finset.mem_singleton]
        exact (Finset.mem_filter.mp hv).2.imp Eq.symm Eq.symm
      have hsplit : ∀ v ∈ nodes,
          ((rel :: rels).filter fun r => r.subject = v ∨ r.object = v).length =
            (if rel.subject = v ∨ rel.object = v then 1 else 0) +
              (rels.filter fun r => r.subject = v ∨ r.object = v).length := by
        intro v _
        rw [List.filter_cons]
        by_cases hends : rel.subject = v ∨ rel.object = v
        · rw [if_pos (decide_eq_true hends), if_pos hends, List.length_cons, Nat.add_comm]
        · rw [if_neg (by simpa using hends), if_neg hends, Nat.zero_add]
      rw [Finset.sum_congr rfl hsplit, Finset.sum_add_distrib, List.length_cons]
      omega
  have hsteps : ∀ v ∈ nodes, (g.steps v).length =
      (g.relations.filter fun r => r.subject = v ∨ r.object = v).length := fun v _ => by
    rw [steps, List.length_map, findRelations]
  rw [Finset.sum_congr rfl hsteps]
  exact hfilter g.relations

theorem findPath_ends : search g.steps b maxDepth g.pops (start a) ≠ none := by
  have hnamed : ∀ v, g.steps v ≠ [] → v ∈ g.named := fun v hsteps => mem_named hsteps
  refine search_ends hnamed ?_
  have hsum := sum_steps_le (g.named \ ∅) g
  simp only [work, start, List.length_singleton, pops]
  omega

theorem search_of_findPath (hfound : g.findPath a b maxDepth = some path) :
    search g.steps b maxDepth g.pops (start a) = some (some path) := by
  rw [findPath] at hfound
  cases hsearch : search g.steps b maxDepth g.pops (start a) with
  | none => exact absurd hsearch findPath_ends
  | some found =>
    rw [hsearch, Option.join_some] at hfound
    rw [hfound]

/-! ## What `find_path` finds -/

def sample : KnowledgeGraph :=
  { new with
    relations :=
      [{ subject := "entity_0", predicate := .worksFor, object := "entity_1", source := 1 },
        { subject := "entity_2", predicate := .partOf, object := "entity_1", source := 2 }] }

/-- A path that is found has at most the given number of relations, all of the graph, and leads
from one entity to the other without coming through an entity twice. -/
theorem findPath_sound (hfound : g.findPath a b maxDepth = some path) :
    path.length ≤ maxDepth ∧ (∀ rel ∈ path, rel ∈ g.relations) ∧
      ∃ left, Walk g.steps a b path left ∧ (left ++ [b]).Nodup := by
  obtain ⟨hlength, left, hwalk, hnodup⟩ := kept_start.search (search_of_findPath hfound)
  refine ⟨hlength, ?_, left, hwalk, hnodup⟩
  clear hfound hlength hnodup
  induction hwalk with
  | stay => exact fun rel hrel => absurd hrel List.not_mem_nil
  | step _ hedge ih =>
    intro rel hrel
    rcases List.mem_append.mp hrel with hrel | hrel
    · exact ih rel hrel
    · rw [List.mem_singleton.mp hrel]
      exact (mem_steps hedge).1

theorem findPath_sound_sample : sample.relations.length ≤ 2 ∧
    (∀ rel ∈ sample.relations, rel ∈ sample.relations) ∧
      ∃ left, Walk sample.steps "entity_0" "entity_2" sample.relations left ∧
        (left ++ ["entity_2"]).Nodup :=
  have hfound : sample.findPath "entity_0" "entity_2" 2 = some sample.relations := by decide
  findPath_sound hfound

/-- If the depth leaves room for the entities that can be reached, the search ends and finds a path
exactly between entities that are connected. -/
theorem findPath_complete {entities : Finset String} (hstart : a ∈ entities)
    (hclosed : ∀ v ∈ entities, ∀ w, g.Related v w → w ∈ entities)
    (hdepth : entities.card ≤ maxDepth + 1) :
    search g.steps b maxDepth g.pops (start a) ≠ none ∧
      ((g.findPath a b maxDepth).isSome ↔ Relation.ReflTransGen g.Related a b) := by
  have hlinked : Linked g.steps = g.Related := funext fun v => funext fun w =>
    propext linked_steps
  refine ⟨findPath_ends, ?_⟩
  constructor
  · intro hsome
    obtain ⟨path, hfound⟩ := Option.isSome_iff_exists.mp hsome
    obtain ⟨-, left, hwalk, -⟩ := kept_start.search (search_of_findPath hfound)
    exact hlinked ▸ hwalk.reaches
  · intro hreach
    have hin : b ∈ entities := by
      induction hreach with
      | refl => exact hstart
      | tail _ hedge ih => exact hclosed _ ih _ hedge
    have hsearch : search g.steps b maxDepth g.pops (start a) ≠ some none :=
      search_ne_none kept_start covers_start (hlinked ▸ hreach) hstart
        (fun v hv edge hedge => hclosed v hv edge.2 (linked_steps.mp ⟨edge.1, hedge⟩)) hin hdepth
    rw [findPath]
    cases hfound : search g.steps b maxDepth g.pops (start a) with
    | none => exact absurd hfound findPath_ends
    | some found =>
      cases found with
      | none => exact absurd hfound hsearch
      | some path => rfl

theorem findPath_complete_sample :
    search sample.steps "entity_2" 2 sample.pops (start "entity_0") ≠ none ∧
      ((sample.findPath "entity_0" "entity_2" 2).isSome ↔
        Relation.ReflTransGen sample.Related "entity_0" "entity_2") := by
  have hstart : "entity_0" ∈ ({"entity_0", "entity_1", "entity_2"} : Finset String) := by decide
  refine findPath_complete hstart ?_ (by decide)
  intro v hv w hrelated
  obtain ⟨rel, hrel, hends⟩ := hrelated
  simp only [sample, List.mem_cons, List.not_mem_nil, or_false] at hrel
  rcases hrel with rfl | rfl
  · rcases hends with ⟨-, rfl⟩ | ⟨rfl, -⟩
    · decide
    · decide
  · rcases hends with ⟨-, rfl⟩ | ⟨rfl, -⟩
    · decide
    · decide

/-! ## What the texts leave -/

inductive Call where
  | extractEntities (text : String) (docId : VectorId)
  | addRelation (relation : Relation)

def Call.phrases (isUppercase : Char → Bool) : Call → List (List String)
  | .extractEntities text _ => KnowledgeGraph.phrases isUppercase (splitWhitespace text)
  | .addRelation _ => []

def Call.text (docId : VectorId) : Call → Option String
  | .extractEntities text id => if id = docId then some text else none
  | .addRelation _ => none

def lastText (docId : VectorId) (calls : List Call) : Option String :=
  (calls.filterMap (Call.text docId)).getLast?

def Call.perform (isUppercase : Char → Bool) (g : KnowledgeGraph) : Call → KnowledgeGraph
  | .extractEntities text docId => (g.extractEntities isUppercase text docId).1
  | .addRelation relation => g.addRelation relation

def perform (isUppercase : Char → Bool) (calls : List Call) : KnowledgeGraph :=
  calls.foldl (Call.perform isUppercase) new

structure Numbered (g : KnowledgeGraph) (said : List (List String)) : Prop where
  size : g.entities.entries.length = said.length
  holds : ∀ i, g.entities.lookup (entityId i) = said[i]?.map (extracted (entityId i))

section Extraction

variable {isUppercase : Char → Bool} {said : List (List String)} {words phrase : List String}
  {e : Extraction} {call : Call} {docId : VectorId}

theorem entityId_inj {i j : Nat} (hid : entityId i = entityId j) : i = j := by
  have hchars : "entity_".toList ++ Nat.toDigits 10 i = "entity_".toList ++ Nat.toDigits 10 j := by
    simpa [entityId] using congrArg String.toList hid
  exact Names.toDigits_inj (List.append_cancel_left hchars)

def idsFrom (first count : Nat) : List String := (List.range' first count).map entityId

theorem Numbered.fresh (hg : Numbered g said) : entityId said.length ∉ g.entities := by
  rw [← AList.lookup_eq_none, hg.holds, List.getElem?_eq_none (le_refl _), Option.map_none]

theorem Numbered.close (he : Numbered e.graph said) (hphrase : phrase ≠ []) :
    Numbered (e.close phrase).graph (said ++ [phrase]) ∧
      (e.close phrase).found = e.found ++ idsFrom said.length 1 := by
  rw [Extraction.close, if_neg hphrase, he.size]
  refine ⟨⟨?_, fun i => ?_⟩, rfl⟩
  · rw [AList.entries_insert_of_notMem he.fresh, List.length_cons, he.size, List.length_append]
    rfl
  · by_cases hlast : i = said.length
    · rw [hlast, AList.lookup_insert, List.getElem?_concat_length]
      rfl
    · rw [AList.lookup_insert_ne fun hid => hlast (entityId_inj hid), he.holds]
      rcases Nat.lt_or_gt_of_ne hlast with hlt | hgt
      · rw [List.getElem?_append_left hlt]
      · rw [List.getElem?_eq_none (Nat.le_of_lt hgt), List.getElem?_eq_none]
        rw [List.length_append]
        exact hgt

theorem close_frame (e : Extraction) (phrase : List String) :
    (e.close phrase).graph.mentions = e.graph.mentions := by
  rw [Extraction.close]
  split
  · rfl
  · rfl

theorem phrases_open (hphrase : ∀ word ∈ phrase, capitalized isUppercase word = true) :
    phrases isUppercase phrase = if phrase = [] then [] else [phrase] := by
  rw [phrases, List.splitOnP_eq_singleton fun word hword => by rw [hphrase word hword]; rfl]
  by_cases hnil : phrase = []
  · rw [if_pos hnil, hnil]
    rfl
  · rw [if_neg hnil]
    exact List.filter_cons_of_pos (by simpa using hnil)

theorem phrases_ends {word : String} (hword : capitalized isUppercase word = false) :
    phrases isUppercase (phrase ++ word :: words) =
      phrases isUppercase phrase ++ phrases isUppercase words := by
  rw [phrases, List.splitOnP_append_cons _ _ (by rw [hword]; rfl), List.filter_append]
  rfl

theorem Numbered.ends (he : Numbered e.graph said)
    (hphrase : ∀ word ∈ phrase, capitalized isUppercase word = true) :
    Numbered (e.close phrase).graph (said ++ phrases isUppercase phrase) ∧
      (e.close phrase).found =
        e.found ++ idsFrom said.length (phrases isUppercase phrase).length := by
  rw [phrases_open hphrase]
  by_cases hnil : phrase = []
  · rw [if_pos hnil, Extraction.close, if_pos hnil, List.append_nil]
    exact ⟨he, (List.append_nil _).symm⟩
  · rw [if_neg hnil]
    exact he.close hnil

variable (words phrase e) in
/-- The loop extracts the longest runs of capitalized words. -/
theorem Numbered.extractLoop (he : Numbered e.graph said)
    (hphrase : ∀ word ∈ phrase, capitalized isUppercase word = true) :
    Numbered (extractLoop isUppercase words phrase e).graph
        (said ++ phrases isUppercase (phrase ++ words)) ∧
      (extractLoop isUppercase words phrase e).found =
        e.found ++ idsFrom said.length (phrases isUppercase (phrase ++ words)).length ∧
      (extractLoop isUppercase words phrase e).graph.mentions = e.graph.mentions := by
  induction words generalizing said phrase e with
  | nil =>
    rw [List.append_nil]
    exact ⟨(he.ends hphrase).1, (he.ends hphrase).2, close_frame e phrase⟩
  | cons word words ih =>
    rw [KnowledgeGraph.extractLoop]
    cases hword : capitalized isUppercase word with
    | true =>
      have hlonger : ∀ w ∈ phrase ++ [word], capitalized isUppercase w = true := by
        intro w hw
        rcases List.mem_append.mp hw with hw | hw
        · exact hphrase w hw
        · rw [List.mem_singleton.mp hw]
          exact hword
      have hstep := ih (phrase ++ [word]) e he hlonger
      rw [List.append_assoc, List.singleton_append] at hstep
      exact hstep
    | false =>
      obtain ⟨hclosed, hfound⟩ := he.ends hphrase
      obtain ⟨hgraph, hids, hmentions⟩ := ih [] _ hclosed (fun w hw =>
        absurd hw List.not_mem_nil)
      rw [List.nil_append] at hgraph hids
      rw [phrases_ends hword]
      refine ⟨List.append_assoc said _ _ ▸ hgraph, ?_, hmentions.trans (close_frame e phrase)⟩
      rw [if_neg Bool.false_ne_true, hids, hfound, List.append_assoc, List.length_append,
        List.length_append, idsFrom, idsFrom, idsFrom, ← List.map_append, List.range'_append_1]

def Stands (isUppercase : Char → Bool) (said : List (List String)) (ids : List String)
    (text : String) : Prop :=
  ∃ before after, said = before ++ phrases isUppercase (splitWhitespace text) ++ after ∧
    ids = idsFrom before.length (phrases isUppercase (splitWhitespace text)).length

/-- The entities are those of all phrases, and what is kept of a document stands for its last
text. -/
structure Follows (isUppercase : Char → Bool) (calls : List Call) (g : KnowledgeGraph) : Prop where
  numbered : Numbered g (calls.flatMap (Call.phrases isUppercase))
  mentions : ∀ docId, Option.Rel (Stands isUppercase (calls.flatMap (Call.phrases isUppercase)))
    (g.mentions.lookup docId) (lastText docId calls)

theorem follows_new : Follows isUppercase [] new where
  numbered := ⟨rfl, fun i => by rw [List.flatMap_nil, List.getElem?_nil]; rfl⟩
  mentions := fun docId => Option.Rel.none

theorem Stands.append {ids : List String} {text : String} {more : List (List String)}
    (hids : Stands isUppercase said ids text) : Stands isUppercase (said ++ more) ids text := by
  obtain ⟨before, after, rfl, rfl⟩ := hids
  exact ⟨before, after ++ more, List.append_assoc _ _ _, rfl⟩

theorem rel_append {ids : Option (List String)} {text : Option String} {more : List (List String)}
    (hids : Option.Rel (Stands isUppercase said) ids text) :
    Option.Rel (Stands isUppercase (said ++ more)) ids text := by
  cases hids with
  | some hids => exact Option.Rel.some hids.append
  | none => exact Option.Rel.none

theorem lastText_concat (docId : VectorId) (calls : List Call) (call : Call) :
    lastText docId (calls ++ [call]) = (call.text docId).or (lastText docId calls) := by
  rw [lastText, List.filterMap_append, List.getLast?_append, List.filterMap_cons]
  cases call.text docId with
  | none => rfl
  | some text => rfl

theorem Follows.step {calls : List Call} {g : KnowledgeGraph} (hg : Follows isUppercase calls g) :
    Follows isUppercase (calls ++ [call]) (call.perform isUppercase g) := by
  have hsaid : (calls ++ [call]).flatMap (Call.phrases isUppercase) =
      calls.flatMap (Call.phrases isUppercase) ++ call.phrases isUppercase := by
    rw [List.flatMap_append, List.flatMap_singleton]
  cases call with
  | addRelation relation =>
    rw [Call.phrases, List.append_nil] at hsaid
    refine ⟨hsaid ▸ ⟨hg.numbered.size, hg.numbered.holds⟩, fun docId => ?_⟩
    rw [hsaid, lastText_concat]
    exact hg.mentions docId
  | extractEntities text id =>
    obtain ⟨hgraph, hfound, hmentions⟩ :=
      hg.numbered.extractLoop (splitWhitespace text) [] { graph := g, found := [] }
        (fun word hword => absurd hword List.not_mem_nil)
    rw [List.nil_append] at hgraph hfound
    refine ⟨hsaid ▸ ⟨hgraph.size, hgraph.holds⟩, fun docId => ?_⟩
    rw [hsaid, lastText_concat, Call.text, Call.perform, extractEntities]
    by_cases hdoc : id = docId
    · rw [if_pos hdoc, hdoc, AList.lookup_insert, hfound]
      exact Option.Rel.some ⟨_, [], (List.append_nil _).symm, rfl⟩
    · rw [if_neg hdoc, AList.lookup_insert_ne (Ne.symm hdoc), hmentions]
      exact rel_append (hg.mentions docId)

theorem follows_perform (isUppercase : Char → Bool) (calls : List Call) :
    Follows isUppercase calls (perform isUppercase calls) := by
  induction calls using List.reverseRecOn with
  | nil => exact follows_new
  | append_singleton calls call ih =>
    rw [perform, List.foldl_append]
    exact ih.step

theorem Numbered.names {g : KnowledgeGraph} {before after said : List (List String)}
    (hg : Numbered g (before ++ said ++ after)) :
    (idsFrom before.length said.length).map (fun id => (g.entities.lookup id).map Entity.name) =
      said.map fun phrase => some (" ".intercalate phrase) := by
  refine List.ext_getElem? fun i => ?_
  rw [idsFrom, List.map_map, List.getElem?_map, List.getElem?_map]
  rcases Nat.lt_or_ge i said.length with hi | hi
  · rw [List.getElem?_range' hi, Option.map_some, Function.comp_apply, hg.holds, Nat.one_mul,
      List.append_assoc, List.getElem?_append_right (Nat.le_add_right _ _), Nat.add_sub_cancel_left,
      List.getElem?_append_left hi, List.getElem?_eq_getElem hi]
    rfl
  · rw [List.getElem?_eq_none (by rw [List.length_range']; exact hi), List.getElem?_eq_none hi]
    rfl

/-- No call reuses the id of an entity: the entities are those of all phrases said, in order, and
the mentions of a document are the phrases of its last text. -/
theorem entities_of_run (isUppercase : Char → Bool) (calls : List Call) :
    (∀ i, (perform isUppercase calls).entities.lookup (entityId i) =
      (calls.flatMap (Call.phrases isUppercase))[i]?.map (extracted (entityId i))) ∧
    ∀ docId, ((perform isUppercase calls).mentions.lookup docId).map (fun ids =>
        ids.map fun id => ((perform isUppercase calls).entities.lookup id).map Entity.name) =
      (lastText docId calls).map fun text =>
        (phrases isUppercase (splitWhitespace text)).map fun phrase =>
          some (" ".intercalate phrase) := by
  have hrun := follows_perform isUppercase calls
  refine ⟨hrun.numbered.holds, fun docId => ?_⟩
  have hmentions := hrun.mentions docId
  generalize (perform isUppercase calls).mentions.lookup docId = ids at hmentions ⊢
  generalize lastText docId calls = text at hmentions ⊢
  cases hmentions with
  | none => rfl
  | some hids =>
    obtain ⟨before, after, hsaid, rfl⟩ := hids
    have hnumbered := hrun.numbered
    rw [hsaid] at hnumbered
    rw [Option.map_some, Option.map_some, hnumbered.names]

end Extraction

end KnowledgeGraph
end Smart
end RTDB
