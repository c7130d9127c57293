import TypeInference.Analyzer
import TypeInference.Inspection.Summary
import TypeInference.Proofs.Constructors
import TypeInference.Proofs.Contents
import TypeInference.Proofs.Copies
import TypeInference.Proofs.Isolation
import TypeInference.Proofs.Memoization
import TypeInference.Proofs.Orders
import TypeInference.Syntax.Numbering
import TypeInference.Syntax.Outline
import TypeInference.Proofs.Flow
import TypeInference.Proofs.Receivers
import TypeInference.Proofs.Logic
import TypeInference.Proofs.Substituting
import TypeInference.Proofs.Inferring
import TypeInference.Proofs.Declaring
import TypeInference.Proofs.Deepening
import TypeInference.Proofs.Soundness
import TypeInference.Proofs.Sparing
import TypeInference.Proofs.Repeating
import TypeInference.Proofs.Uniting
import TypeInference.Proofs.Indexing
import TypeInference.Proofs.Mappings
import TypeInference.Proofs.Receipts
import TypeInference.Proofs.Resting
import TypeInference.Proofs.Remaining
import TypeInference.Proofs.Convergence
import TypeInference.Proofs.Evaluations
import TypeInference.Proofs.Requests
import TypeInference.Proofs.Specializations
import TypeInference.Proofs.Termination
import TypeInference.Proofs.Forgetting
import TypeInference.Proofs.Placement
import TypeInference.Proofs.ScopeTables
import TypeInference.Proofs.Discarding
import TypeInference.Proofs.Locals
import TypeInference.Proofs.Registered
import TypeInference.Proofs.Charges
import TypeInference.Proofs.Ledger
import TypeInference.Proofs.Spending
import TypeInference.Proofs.Accounting
import TypeInference.Proofs.Tally
import TypeInference.Proofs.Histories
import TypeInference.Proofs.Completion
import TypeInference.Proofs.Marks
import TypeInference.Proofs.Moves
import TypeInference.Proofs.Grounding
import TypeInference.Proofs.Formation
import TypeInference.Proofs.Watches
import TypeInference.Proofs.Retention
import TypeInference.Proofs.Normality
import TypeInference.Proofs.Shapes
import TypeInference.Proofs.Parameters
import TypeInference.Proofs.Chains
import TypeInference.Proofs.Positions
import TypeInference.Proofs.Occurrences
import TypeInference.Proofs.Replacing
import TypeInference.Proofs.Residues
import TypeInference.Proofs.ClassBodies
import TypeInference.Proofs.Exactness
import TypeInference.Proofs.Instantiation
import TypeInference.Proofs.OpenParameters
import TypeInference.Proofs.Ignoring
import TypeInference.Proofs.Distribution
import TypeInference.Proofs.Linearization
import TypeInference.Proofs.Caching
import TypeInference.Proofs.OpenTemplates
import TypeInference.Proofs.SelfReference
import TypeInference.Proofs.GenericIdentity
import TypeInference.Proofs.Redirections
import TypeInference.Proofs.Saturation
import TypeInference.Proofs.Filling
import TypeInference.Proofs.Idempotence
import TypeInference.Proofs.Visibility
import TypeInference.Proofs.Touching
import TypeInference.Proofs.Reevaluating
import TypeInference.Proofs.Yielding
import TypeInference.Proofs.Destructuring
import TypeInference.Proofs.Checking
import TypeInference.Proofs.Returning
import TypeInference.Proofs.Ancestry
import TypeInference.Proofs.Following
import TypeInference.Proofs.BadIndices
import TypeInference.Proofs.ClassOperands
