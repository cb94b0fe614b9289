import PathSelection.Main
import PathSelection.Proofs.Reals
import PathSelection.Proofs.Rounding.Run
import PathSelection.Proofs.Random.Sources
import PathSelection.Proofs.Rounding.Cardinality
import PathSelection.Proofs.Random.Uniform
import PathSelection.Proofs.Rounding.Marginals
import PathSelection.Proofs.Exp3.Cap
import PathSelection.Proofs.Exp3.Probabilities
import PathSelection.Proofs.Exp3.Reachable
import PathSelection.Proofs.Exp3.Selection
import PathSelection.Proofs.Exp3.Scaling
import PathSelection.Proofs.Exp3.Textbook
import PathSelection.Proofs.Ranking
import PathSelection.Proofs.Constrained.Reachable
import PathSelection.Proofs.Constrained.Selection
import PathSelection.Proofs.Lp.Filling
import PathSelection.Proofs.Lp.Shares
import PathSelection.Proofs.Lp.Capped
import PathSelection.Proofs.Lp.Floored
import PathSelection.Proofs.Simulator.Events
import PathSelection.Proofs.Simulator.Turn
import PathSelection.Proofs.Simulator.Run
import PathSelection.Proofs.KlUcb.Visits
import PathSelection.Proofs.Binary64
import PathSelection.Proofs.KlUcb.Bounds
import PathSelection.Proofs.KlUcb.Exploration
import PathSelection.Proofs.KlUcb.Leaders
import PathSelection.Proofs.KlUcb.Monotone
import PathSelection.Proofs.KlUcb.UpperBound
import PathSelection.Proofs.Extended
import PathSelection.Proofs.Exp3.Bounds
import PathSelection.Proofs.Simulator.Repetitions
import PathSelection.Proofs.Source.Replay
import PathSelection.Proofs.Simulator.Replay
import PathSelection.Proofs.Log.Bag
import PathSelection.Proofs.Policy.Checked
import PathSelection.Proofs.Validation
import PathSelection.Proofs.Simulator.Alone
import PathSelection.Proofs.Policy.Calls
import PathSelection.Proofs.Constrained.Learning
import PathSelection.Proofs.Constrained.Evidence
import PathSelection.Proofs.Binary64.Counting
import PathSelection.Proofs.Constrained.Undamped
import PathSelection.Proofs.Constrained.Averages
import PathSelection.Proofs.Constrained.Oracle
import PathSelection.Proofs.Lp.Conditions
import PathSelection.Proofs.Log.Columns
import PathSelection.Proofs.Log.Rewards
import PathSelection.Proofs.Simulator.Regret
import PathSelection.Proofs.Source.Session
import PathSelection.Proofs.Policy.Permuted
import PathSelection.Proofs.Text.Written
import PathSelection.Proofs.Text.Alike
import PathSelection.Proofs.Log.Disabled
import PathSelection.Proofs.Lengths
import PathSelection.Proofs.Seed
import PathSelection.Proofs.Ranking.Extremes
import PathSelection.Proofs.Simulator.Finished
import PathSelection.Proofs.Command.Logs
import PathSelection.Proofs.Binary64.Order
import PathSelection.Proofs.Rounding.Passes
import PathSelection.Proofs.Command.Written
