import Ovn.Actions.Args
import Ovn.Expr.ConstantSets
import Ovn.Expr.Matches
import Ovn.Engine
import Ovn.Controller.BfdRfc
import Ovn.Controller.CtZonesRun
import Ovn.Controller.HaChassis
import Ovn.Controller.IfStatusRun
import Ovn.Controller.LflowConjIds
import Ovn.Controller.MacCacheExact
import Ovn.Controller.PortBindingChanges
import Ovn.Ic.SequenceSound
import Ovn.Ofctrl.Acks
import Ovn.Ofctrl.Delivery
import Ovn.Ofctrl.FlowSwitch
import Ovn.Ofctrl.Meters
import Ovn.Northd.AclPolicy
import Ovn.Northd.AddrSetsSync
import Ovn.Northd.DatapathsBuild
import Ovn.Northd.Ipam
import Ovn.Northd.LbDataExact
import Ovn.Northd.LflowBuild
import Ovn.Northd.LflowSyncGroups
import Ovn.Northd.LspAlive
import Ovn.Northd.LsStatefulFlows
import Ovn.Northd.PortGroupExact
import Ovn.Northd.RoutesLpm
import Ovn.Util.Fqdn
import Ovn.Util.LbText
import Ovn.Util.Objdep
import Ovn.Util.Tnlid
import Ovn.WorkerPoolSync
