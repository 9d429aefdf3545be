import Mathlib.Data.List.Basic

set_option autoImplicit false

namespace Codec.Audit

-- An out_plugin or net_plugin: its id, its process with a context of its own,
-- and the queue entry_post. A message is its number and its argument.
inductive Plugin (α : Type)
  | mk (id : Int) (process : Option (Nat → Option α → Int)) (entryPost : List (Plugin α))

namespace Plugin

variable {α : Type}

def id : Plugin α → Int
  | .mk id _ _ => id

def process : Plugin α → Option (Nat → Option α → Int)
  | .mk _ process _ => process

def entryPost : Plugin α → List (Plugin α)
  | .mk _ _ post => post

end Plugin

section Find

variable {α : Type}

-- out_find_plugin and net_find_plugin alike; plg is the one variable for the
-- plugin looked at and for what is returned.
mutual
def findLoop (id : Int) : Option (Plugin α) → List (Plugin α) → Option (Plugin α)
  | plg, [] => plg
  | _, node :: rest =>
    if node.id = id then some node
    else if node.entryPost = [] then findLoop id (some node) rest
    else match findPost id node with
      | none => none
      | some plg => findLoop id (some plg) rest
def findPost (id : Int) : Plugin α → Option (Plugin α)
  | .mk _ _ post => findLoop id none post
end

def findPlugin (list : Option (List (Plugin α))) (id : Int) : Option (Plugin α) := list.bind (findLoop id none)

-- Whose process was called and what it returned, EMS_ERR, or the log line that
-- takes desc of a NULL.
inductive Sent (α : Type)
  | process (plg : Plugin α) (rtn : Int)
  | err
  | crash

def plugSendmsg (plg : Option (Plugin α)) (evt : Nat) (arg : Option α) : Sent α :=
  match plg with
  | none => .crash
  | some plg =>
    match plg.process with
    | some process => .process plg (process evt arg)
    | none => .err

def outFindPlugin (list : Option (List (Plugin α))) (id : Int) : Option (Plugin α) := findPlugin list id

def netFindPlugin (list : Option (List (Plugin α))) (id : Int) : Option (Plugin α) := findPlugin list id

def outSendmsg (filters : Option (List (Plugin α))) (d : Int) (evt : Nat) (arg : Option α) : Sent α :=
  plugSendmsg (outFindPlugin filters d) evt arg

def netSendmsg (filters : Option (List (Plugin α))) (d : Int) (evt : Nat) (arg : Option α) : Sent α :=
  plugSendmsg (netFindPlugin filters d) evt arg

end Find

section Forest

variable {α : Type}

inductive Anywhere (plg : Plugin α) : List (Plugin α) → Prop
  | root (forest : List (Plugin α)) (here : plg ∈ forest) : Anywhere plg forest
  | under (forest : List (Plugin α)) (node : Plugin α) (there : node ∈ forest) (deeper : Anywhere plg node.entryPost) :
      Anywhere plg forest

-- Among the roots, or among the plugins below the last root, and so on.
inductive OnSpine (id : Int) : List (Plugin α) → Prop
  | root (forest : List (Plugin α)) (node : Plugin α) (here : node ∈ forest) (own : node.id = id) : OnSpine id forest
  | last (before : List (Plugin α)) (node : Plugin α) (deeper : OnSpine id node.entryPost) : OnSpine id (before ++ [node])

def FindRight (forest : List (Plugin α)) (id : Int) (found : Option (Plugin α)) : Prop :=
  (∃ plg, found = some plg ∧ plg.id = id ∧ Anywhere plg forest) ∨
    (found = none ∧ ∀ plg, Anywhere plg forest → plg.id ≠ id)

def SentRight (forest : List (Plugin α)) (d : Int) (sent : Sent α) : Prop :=
  (∃ plg rtn, sent = .process plg rtn ∧ plg.id = d ∧ Anywhere plg forest) ∨ sent = .err

structure LookupRight (list : Option (List (Plugin α))) (id : Int) : Prop where
  outFind : FindRight (list.getD []) id (outFindPlugin list id)
  netFind : FindRight (list.getD []) id (netFindPlugin list id)
  outSend : ∀ evt arg, SentRight (list.getD []) id (outSendmsg list id evt arg)
  netSend : ∀ evt arg, SentRight (list.getD []) id (netSendmsg list id evt arg)

mutual
theorem below_roots (motive : List (Plugin α) → Prop)
    (step : ∀ forest, (∀ node ∈ forest, motive node.entryPost) → motive forest) :
    (forest : List (Plugin α)) → ∀ node ∈ forest, motive node.entryPost
  | [], _, there => absurd there List.not_mem_nil
  | first :: rest, node, there => by
    rcases List.mem_cons.mp there with same | later
    · exact same ▸ below_root motive step first
    · exact below_roots motive step rest node later
theorem below_root (motive : List (Plugin α) → Prop)
    (step : ∀ forest, (∀ node ∈ forest, motive node.entryPost) → motive forest) : (node : Plugin α) → motive node.entryPost
  | .mk _ _ post => step post (below_roots motive step post)
end

theorem forest_induction (motive : List (Plugin α) → Prop)
    (step : ∀ forest, (∀ node ∈ forest, motive node.entryPost) → motive forest) (forest : List (Plugin α)) : motive forest :=
  step _ (below_roots _ step _)

-- What plg is after a node that is not the one looked for.
def passed (id : Int) (node : Plugin α) : Option (Plugin α) :=
  if node.entryPost = [] then some node else findLoop id none node.entryPost

theorem find_post (id : Int) (node : Plugin α) : findPost id node = findLoop id none node.entryPost := by
  cases node
  rw [findPost, Plugin.entryPost]

mutual
theorem find_loop_some (id : Int) : (plg : Option (Plugin α)) → (forest : List (Plugin α)) →
    (solid : plg ≠ none ∨ forest ≠ []) → findLoop id plg forest ≠ none
  | plg, [], solid => by
    rw [findLoop]
    exact solid.resolve_right fun other => other rfl
  | plg, node :: rest, _ => by
    rw [findLoop]
    by_cases own : node.id = id
    · simp [own]
    · rw [if_neg own]
      by_cases bare : node.entryPost = []
      · rw [if_pos bare]
        exact find_loop_some id _ rest (.inl (Option.some_ne_none node))
      · rw [if_neg bare]
        cases deeper : findPost id node with
        | none => exact absurd deeper (find_post_some id node bare)
        | some plg => exact find_loop_some id _ rest (.inl (Option.some_ne_none plg))
theorem find_post_some (id : Int) : (node : Plugin α) → node.entryPost ≠ [] → findPost id node ≠ none
  | .mk _ _ post, solid => by
    rw [findPost]
    exact find_loop_some id none post (.inr solid)
end

theorem find_loop_cons (id : Int) (plg : Option (Plugin α)) (node : Plugin α) (rest : List (Plugin α)) :
    findLoop id plg (node :: rest) = if node.id = id then some node else findLoop id (passed id node) rest := by
  rw [findLoop, passed, find_post]
  by_cases bare : node.entryPost = []
  · rw [if_pos bare, if_pos bare]
  · rw [if_neg bare, if_neg bare]
    cases deeper : findLoop id none _ with
    | none => exact absurd deeper (find_loop_some id none _ (.inr bare))
    | some plg => rfl

-- The subtrees before the last root are searched for nothing.
theorem find_loop_eq (id : Int) (plg : Option (Plugin α)) (forest : List (Plugin α)) : findLoop id plg forest =
      (forest.find? fun node => node.id = id).or (forest.getLast?.elim plg (passed id)) := by
  induction forest generalizing plg with
  | nil => simp [findLoop]
  | cons node rest ih =>
    rw [find_loop_cons]
    by_cases own : node.id = id
    · simp [own]
    · rw [if_neg own, ih, List.find?_cons_of_neg (by simpa using own)]
      cases rest with
      | nil => rfl
      | cons second rest => rw [List.getLast?_cons_cons]; rfl

theorem find_loop_anywhere (id : Int) (forest : List (Plugin α)) :
    ∀ plg, findLoop id none forest = some plg → Anywhere plg forest := by
  induction forest using forest_induction with
  | step forest ih =>
    intro plg found
    rw [find_loop_eq, Option.or_eq_some_iff] at found
    obtain root | ⟨-, behind⟩ := found
    · exact .root _ (List.mem_of_find?_eq_some root)
    · cases last : forest.getLast? with
      | none =>
        rw [last] at behind
        cases behind
      | some node =>
        have there := List.mem_of_getLast? last
        rw [last, Option.elim_some, passed] at behind
        by_cases bare : node.entryPost = []
        · rw [if_pos bare, Option.some.injEq] at behind
          exact .root _ (behind ▸ there)
        · rw [if_neg bare] at behind
          exact .under _ node there (ih node there plg behind)

theorem on_spine_iff (id : Int) (forest : List (Plugin α)) :
    OnSpine id forest ↔ (∃ node ∈ forest, node.id = id) ∨ ∃ node ∈ forest.getLast?, OnSpine id node.entryPost := by
  constructor
  · intro spine
    cases spine with
    | root _ node here own => exact .inl ⟨node, here, own⟩
    | last before node deeper => exact .inr ⟨node, by simp, deeper⟩
  · rintro (⟨node, here, own⟩ | ⟨node, last, deeper⟩)
    · exact .root _ node here own
    · obtain ⟨before, same⟩ := List.getLast?_eq_some_iff.mp last
      rw [same]
      exact .last _ node deeper

theorem find_loop_spine (id : Int) (forest : List (Plugin α)) :
    (∃ plg, findLoop id none forest = some plg ∧ plg.id = id) ↔ OnSpine id forest := by
  induction forest using forest_induction with
  | step forest ih =>
    rw [find_loop_eq, on_spine_iff]
    cases root : forest.find? fun node => node.id = id with
    | some plg =>
      have own : plg.id = id := by simpa using List.find?_some root
      exact iff_of_true ⟨plg, rfl, own⟩ (.inl ⟨plg, List.mem_of_find?_eq_some root, own⟩)
    | none =>
      have others : ¬∃ node ∈ forest, node.id = id := by simpa using root
      rw [Option.none_or, or_iff_right others]
      cases last : forest.getLast? with
      | none => simp
      | some node =>
        have there := List.mem_of_getLast? last
        simp only [Option.elim_some, passed, Option.mem_def, Option.some.injEq, exists_eq_left']
        by_cases bare : node.entryPost = []
        · have none : ¬OnSpine id ([] : List (Plugin α)) := by
            intro spine
            obtain ⟨_, there, _⟩ | ⟨_, last, _⟩ := (on_spine_iff id []).mp spine
            · cases there
            · cases last
          rw [if_pos bare, bare]
          refine iff_of_false ?_ none
          rintro ⟨plg, same, own⟩
          exact others ⟨node, there, Option.some.inj same ▸ own⟩
        · rw [if_neg bare]
          exact ih node there

theorem on_spine_anywhere (id : Int) (forest : List (Plugin α)) (spine : OnSpine id forest) :
    ∃ plg, findLoop id none forest = some plg ∧ plg.id = id ∧ Anywhere plg forest := by
  obtain ⟨plg, found, own⟩ := (find_loop_spine id _).mpr spine
  exact ⟨plg, found, own, find_loop_anywhere id _ plg found⟩

theorem plug_sendmsg_right (forest : List (Plugin α)) (d : Int) (evt : Nat) (arg : Option α)
    (found : ∃ plg, findLoop d none forest = some plg ∧ plg.id = d ∧ Anywhere plg forest) :
    SentRight forest d (plugSendmsg (findLoop d none forest) evt arg) := by
  obtain ⟨plg, same, own, there⟩ := found
  rw [same, plugSendmsg]
  cases handler : plg.process with
  | none => exact .inr rfl
  | some process => exact .inl ⟨plg, process evt arg, rfl, own, there⟩

-- An id elsewhere, or none at all, gives the last plugin of the spine. Without
-- any plugin out_find_plugin is right and the message takes the process down.
theorem lookup_right_iff (list : Option (List (Plugin α))) (id : Int) : LookupRight list id ↔ OnSpine id (list.getD []) := by
  have same : findPlugin list id = findLoop id none (list.getD []) := by
    cases list with
    | none => simp [findPlugin, findLoop]
    | some forest => rfl
  constructor
  · intro right
    rw [← find_loop_spine]
    obtain ⟨plg, found, own, -⟩ | ⟨none, -⟩ := right.outFind
    · exact ⟨plg, same.symm.trans found, own⟩
    · obtain ⟨plg, rtn, sent, -⟩ | failed := right.outSend 0 Option.none
      · rw [outSendmsg, none] at sent
        cases sent
      · rw [outSendmsg, none] at failed
        cases failed
  · intro spine
    have found := on_spine_anywhere id _ spine
    refine ⟨?_, ?_, fun evt arg => ?_, fun evt arg => ?_⟩
    · rw [outFindPlugin, same]
      exact .inl found
    · rw [netFindPlugin, same]
      exact .inl found
    · rw [outSendmsg, outFindPlugin, same]
      exact plug_sendmsg_right _ id evt arg found
    · rw [netSendmsg, netFindPlugin, same]
      exact plug_sendmsg_right _ id evt arg found

end Forest

def idOut : Int := 1
def idOutFile : Int := 50
def idOut16wifi : Int := 51

-- What out_load_plugins makes of out_file and of out_16wifi below it.
def outLoaded : List (Plugin Unit) := [.mk idOutFile (some fun _ _ => 0) [.mk idOut16wifi (some fun _ _ => 0) []]]

theorem absent_id_found : ¬ ∀ (list : Option (List (Plugin Unit))) (id : Int), LookupRight list id := by
  intro right
  have other : (outFindPlugin (some outLoaded) idOut).map Plugin.id = some idOut16wifi := by decide
  obtain ⟨plg, found, own, -⟩ | ⟨none, -⟩ := (right _ _).outFind
  · rw [found, Option.map_some, own] at other
    exact absurd other (by decide)
  · rw [none] at other
    cases other

end Codec.Audit
