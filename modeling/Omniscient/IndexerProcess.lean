import Omniscient.Indexer

/-! The indexer's process: it sees to it that every contract has a cursor, and then
runs the loop until it is killed or told to stop. Either drops the rest of the turn. -/

namespace Omniscient.Indexer

/-- `INSERT INTO indexer_cursors … ON CONFLICT DO NOTHING`. -/
def ensureCursor (db : Database) (contract : Address) : Database :=
  if db.indexerCursors.any (·.contractAddress = contract) then
    db
  else
    { db with indexerCursors := db.indexerCursors ++ [⟨contract, 0, none⟩] }

def followed (config : AppConfig) : List Address :=
  [config.custodyAddr, config.settlementExchangeAddr, config.oracleAddr]

def ensureCursors (config : AppConfig) (db : Database) : Database := (followed config).foldl ensureCursor db

/-- The process runs, or it does not; the database and the chain go on without it. -/
inductive Process where
  | running (state : State)
  | stopped (world : World)

def Process.world : Process → World
  | .running state => state.world
  | .stopped world => world

inductive Life where
  | operates (label : Label)
  | stops
  | starts (inserted : Nat)

def Life.label : Life → Option Label
  | .operates label => some label
  | .stops => none
  | .starts _ => none

/-- The loop runs once all inserts of `ensure_cursors` have succeeded. If one fails,
those before it stay and the process ends. -/
def starting (config : AppConfig) (inserted : Nat) (world : World) : Process :=
  let db := ((followed config).take inserted).foldl ensureCursor world.db
  if (followed config).length ≤ inserted then
    .running ⟨{ world with db }, .done ()⟩
  else
    .stopped { world with db }

inductive Lives (outside : Surroundings) (config : AppConfig) (blocks : Bytes32 → List RawLog)
    (may : Chain → Chain → Prop) : Process → Life → Process → Prop where
  | operates {state after : State} {label : Label} (moved : Moves outside config blocks may state label after) :
      Lives outside config blocks may (.running state) (.operates label) (.running after)
  | stops {state : State} : Lives outside config blocks may (.running state) .stops (.stopped state.world)
  | starts {world drifted : World} (drifts : world.Drifts may drifted) (inserted : Nat) :
      Lives outside config blocks may (.stopped world) (.starts inserted) (starting config inserted drifted)

def operations (life : List Life) : List Label := life.filterMap Life.label

end Omniscient.Indexer
