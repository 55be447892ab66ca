import AccountCooker.Blindness
import AccountCooker.Peeling
import AccountCooker.Episodes
import AccountCooker.Permissive
import AccountCooker.Pairwise
import AccountCooker.Anonymity
import AccountCooker.Consolidation
import AccountCooker.Invisible
import AccountCooker.Bisimulation
import AccountCooker.Wakes
import AccountCooker.Splitting
import AccountCooker.Totality
import AccountCooker.Refusal
import AccountCooker.Recovery
import AccountCooker.Remote
import AccountCooker.Envelope
import AccountCooker.Expiry
import AccountCooker.Partition
import AccountCooker.Area
import AccountCooker.Choice
import AccountCooker.Memos
import AccountCooker.Horizon
import AccountCooker.Twins
import AccountCooker.Maintenance
import AccountCooker.Surplus
import AccountCooker.Endurance
import AccountCooker.Settlement
import AccountCooker.Commands
import AccountCooker.Reproducible
import AccountCooker.Isolation
import AccountCooker.Soundness
import AccountCooker.Settings
import AccountCooker.Reports
import AccountCooker.Nearest
import AccountCooker.Scores
import AccountCooker.Statistic
